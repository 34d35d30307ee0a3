import FrameGraph.Device.Error
import FrameGraph.Handle
import FrameGraph.Total
import FrameGraph.Usage

/-!
# Events

What the graph reports while it works.  An event holds the facts; its severity and its wording are
functions of it, `Event.level` and `Event.text`.
-/

set_option autoImplicit false

namespace FrameGraph

/-- Severities, the most severe first. -/
inductive Level where
  | error
  | warn
  | info
  | debug
  | trace
  deriving DecidableEq, Repr

namespace Level

/-- The word for a level. -/
def text : Level → String
  | .error => "ERROR"
  | .warn => "WARN"
  | .info => "INFO"
  | .debug => "DEBUG"
  | .trace => "TRACE"

/-- The position of a level, counted from the most severe. -/
def rank : Level → Nat
  | .error => 0
  | .warn => 1
  | .info => 2
  | .debug => 3
  | .trace => 4

/-- Holds if an event of this level is shown at a verbosity; no verbosity shows nothing. -/
def shownAt (level : Level) : Option Level → Bool
  | none => false
  | some verbosity => level.rank ≤ verbosity.rank

end Level

/-- Something that the graph reports. -/
inductive Event where
  /-- A registration under a name that is taken. -/
  | nameTaken (name : String)
  /-- An import of a null object. -/
  | nullImport (kind : ResourceKind) (name : String)
  /-- An update to a null object. -/
  | nullUpdate (kind : ResourceKind) (name : String)
  /-- An update of a resource that is not registered. -/
  | updateUnknown (name : String)
  /-- An update of a resource that is internal or of the other kind. -/
  | updateMismatch (kind : ResourceKind) (name : String)
  /-- An output mark on a resource that is not registered. -/
  | outputUnknown (name : String)
  /-- An access to a resource that is not registered. -/
  | accessUnknown (pass : String) (isWrite : Bool) (name : String)
  /-- An access that the usage does not allow. -/
  | accessRejected (pass : String) (isWrite : Bool) (kind : ResourceKind) (name : String)
      (usage : Usage)
  /-- A second pass of the same name. -/
  | passNameReused (name : String)
  /-- A pass that records nothing by itself. -/
  | passWithoutCallback (name : String)
  /-- Passes that depend on each other in a circle. -/
  | dependencyCycle (names : List String)
  /-- No pass contributes to an output. -/
  | everyPassPruned
  /-- A pass that contributes to no output. -/
  | passPruned (name : String)
  /-- The dependencies are analysed. -/
  | analysed (passes reachable edges : Nat)
  /-- The scheduler found no pass that is ready. -/
  | schedulerStalled (scheduled total : Nat)
  /-- A transient resource is read before any pass writes it. -/
  | readBeforeWrite (resource pass : String)
  /-- A barrier before a pass. -/
  | preBarrier (resource pass : String) (source target : Layout)
  /-- A barrier after a pass. -/
  | postBarrier (resource pass : String) (source target : Layout)
  /-- The plan is compiled. -/
  | compiled (names : List String) (barriers : Nat)
  /-- A persistent resource that is no longer declared. -/
  | persistentReleased (name : String)
  /-- A frame index that is not smaller than the number of frames in flight. -/
  | frameOutOfRange (frame framesInFlight : Nat)
  /-- A persistent resource that was created. -/
  | persistentCreated (name : String)
  /-- A persistent resource that could not be created. -/
  | persistentFailed (name : String) (error : DeviceError)
  /-- A memory block that is used again. -/
  | blockReused (name : String) (block size frame : Nat)
  /-- Memory for a transient resource that could not be allocated. -/
  | poolExhausted (name : String) (error : DeviceError)
  /-- A transient resource that could not be created. -/
  | transientFailed (kind : ResourceKind) (name : String) (error : DeviceError)
  /-- A transient resource in the memory of an earlier one. -/
  | memoryAliased (current previous : Handle) (frame : Nat)
  /-- A pass that is skipped because resources are missing. -/
  | passSkipped (pass : String) (frame : Nat) (missing : List String)
  /-- An imported resource that is handed back in another layout than agreed. -/
  | exitLayout (name : String) (found : Option Layout) (expected : Layout)
  /-- A frame is recorded, on a pool with blocks of those sizes. -/
  | frameRecorded (frame recorded skipped : Nat) (sizes : List Nat)
  /-- A line of a report. -/
  | report (line : String)
  deriving DecidableEq, Repr

namespace Event

/-- The severity of an event. -/
def level : Event → Level
  | .nameTaken _ | .nullImport _ _ | .nullUpdate _ _ | .updateUnknown _ | .updateMismatch _ _
  | .outputUnknown _ | .accessUnknown _ _ _ | .accessRejected _ _ _ _ _ | .dependencyCycle _
  | .schedulerStalled _ _ | .frameOutOfRange _ _ | .persistentFailed _ _ | .poolExhausted _ _
  | .transientFailed _ _ _ => .error
  | .passNameReused _ | .everyPassPruned | .readBeforeWrite _ _ | .passSkipped _ _ _
  | .exitLayout _ _ _ => .warn
  | .analysed _ _ _ | .compiled _ _ | .report _ => .info
  | .passWithoutCallback _ | .passPruned _ | .persistentReleased _ | .persistentCreated _
  | .blockReused _ _ _ _ => .debug
  | .preBarrier _ _ _ _ | .postBarrier _ _ _ _ | .memoryAliased _ _ _
  | .frameRecorded _ _ _ _ => .trace

/-- The verb for a direction of access. -/
def directionText (isWrite : Bool) : String := if isWrite then "write" else "read"

/-- A layout that may be unknown. -/
def layoutText : Option Layout → String
  | none => "None"
  | some layout => s!"Some({layout.text})"

/-- The wording of an event. -/
def text : Event → String
  | .nameTaken name => s!"RenderGraph: resource \"{name}\" is already registered, ignored"
  | .nullImport kind name =>
      s!"RenderGraph: import_{kind.word}(\"{name}\") with a null {kind.word}, ignored"
  | .nullUpdate kind name =>
      s!"RenderGraph: update_imported_{kind.word}(\"{name}\") with a null {kind.word}, ignored"
  | .updateUnknown name => s!"RenderGraph: cannot update unknown imported resource \"{name}\""
  | .updateMismatch kind name =>
      s!"RenderGraph: \"{name}\" is not an imported {kind.text}, update ignored"
  | .outputUnknown name =>
      s!"RenderGraph: mark_output(\"{name}\") refers to an unknown resource"
  | .accessUnknown pass isWrite name =>
      s!"RenderGraph: pass \"{pass}\" tries to {directionText isWrite} " ++
        s!"unknown resource \"{name}\", ignored"
  | .accessRejected pass isWrite kind name usage =>
      s!"RenderGraph: pass \"{pass}\" cannot {directionText isWrite} {kind.text} \"{name}\" " ++
        s!"as {usage.text}, ignored"
  | .passNameReused name => s!"RenderGraph: pass name \"{name}\" is used more than once"
  | .passWithoutCallback name => s!"RenderGraph: pass \"{name}\" has no execute callback"
  | .dependencyCycle names =>
      s!"RenderGraph: dependency cycle among passes [" ++ ", ".intercalate names ++ "]"
  | .everyPassPruned =>
      "RenderGraph: no pass writes a presented or output resource, every pass is pruned"
  | .passPruned name =>
      s!"RenderGraph: pass \"{name}\" does not contribute to any output, pruned"
  | .analysed passes reachable edges =>
      s!"RenderGraph built: {passes} passes, {reachable} reachable, {edges} dependency edges"
  | .schedulerStalled scheduled total =>
      s!"RenderGraph: scheduler stalled after {scheduled} of {total} passes, " ++
        "appending the rest in declaration order"
  | .readBeforeWrite resource pass =>
      s!"RenderGraph: \"{resource}\" is read by pass \"{pass}\" before any write, " ++
        "its content is undefined"
  | .preBarrier resource pass source target =>
      s!"RenderGraph: pre-barrier \"{resource}\" before \"{pass}\": " ++
        s!"{source.text} -> {target.text}"
  | .postBarrier resource pass source target =>
      s!"RenderGraph: post-barrier \"{resource}\" after \"{pass}\": " ++
        s!"{source.text} -> {target.text}"
  | .compiled names barriers =>
      "RenderGraph compiled: [" ++ " → ".intercalate names ++ s!"], {barriers} barriers"
  | .persistentReleased name => s!"RenderGraph: releasing persistent resource \"{name}\""
  | .frameOutOfRange frame framesInFlight =>
      s!"RenderGraph: frame index {frame} is out of range (fif_count = {framesInFlight}), " ++
        "frame skipped"
  | .persistentCreated name => s!"RenderGraph: created persistent resource \"{name}\""
  | .persistentFailed name error =>
      s!"RenderGraph: failed to create persistent resource \"{name}\": {error.text}"
  | .blockReused name block size frame =>
      s!"RenderGraph: \"{name}\" reuses block #{block} ({size} bytes) in frame {frame}"
  | .poolExhausted name error =>
      s!"RenderGraph: transient pool exhausted for \"{name}\": {error.text}"
  | .transientFailed kind name error =>
      s!"RenderGraph: failed to create transient {kind.word} \"{name}\": {error.text}"
  | .memoryAliased current previous frame =>
      s!"RenderGraph: RgResourceHandle({current.text}) aliases the memory of " ++
        s!"RgResourceHandle({previous.text}) in frame {frame}"
  | .passSkipped pass frame missing =>
      s!"RenderGraph: pass \"{pass}\" skipped in frame {frame}, no physical resource for [" ++
        ", ".intercalate missing ++ "]"
  | .exitLayout name found expected =>
      s!"RenderGraph: \"{name}\" leaves the graph in {layoutText found}, " ++
        s!"expected {expected.text}"
  | .frameRecorded frame recorded skipped sizes =>
      s!"RenderGraph: frame {frame} recorded {recorded} passes ({skipped} skipped), " ++
        s!"pool {sizes.length} blocks / {totalOf sizes} bytes"
  | .report line => line

/-- Holds if the event is shown at a verbosity. -/
def shownAt (event : Event) (verbosity : Option Level) : Bool := event.level.shownAt verbosity

end Event

end FrameGraph
