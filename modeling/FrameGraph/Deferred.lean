import FrameGraph.Graph.Execute
import FrameGraph.Rounding

/-!
# A deferred renderer

A graph of seven passes, from the upload of the lights to the picture on the swapchain, together
with a report on its plan and on the memory that some frames take.  Nothing is drawn: the device
has no processor behind it.
-/

set_option autoImplicit false

namespace FrameGraph.Deferred

/-! ## Resources -/

/-- An image of the size of the screen. -/
def screen (format : Format) (usage : ImageUsageMask) : ImageInfo := .flat 1920 1080 format usage

/-- An image that is drawn to and sampled later. -/
def target (format : Format) : ImageInfo :=
  screen format (ImageUsage.colorAttachment ||| ImageUsage.sampled)

/-- The resources of the renderer.  The history outlives a frame, and the swapchain is not its
own. -/
def resources : List Registry.Operation :=
  [.importImage "swapchain" 0x1000 0x1001 (screen .b8g8r8a8Srgb ImageUsage.colorAttachment)
      .present .present,
   .createImage "gbuffer_albedo" (target .r8g8b8a8Unorm) false,
   .createImage "gbuffer_normal" (target .r16g16b16a16Sfloat) false,
   .createImage "depth"
      (screen .d32Sfloat (ImageUsage.depthAttachment ||| ImageUsage.sampled)) false,
   .createImage "hdr" (target .r16g16b16a16Sfloat) false,
   .createImage "taa_history"
      ((target .r16g16b16a16Sfloat).withUsage (ImageUsage.storage ||| ImageUsage.sampled)) true,
   .createImage "ldr" (target .r8g8b8a8Unorm) false,
   .createBuffer "light_list" ⟨64 * 1024, BufferUsage.storage ||| BufferUsage.transferDst⟩ false]

/-! ## Passes -/

/-- A pass that records no commands of its own. -/
def silent (name : String) (kind : PassKind) (acts : List Act) : PassDeclaration :=
  ⟨name, kind, acts, none⟩

/-- The passes of the renderer.  The picture of the normals is not used. -/
def declarations : List PassDeclaration :=
  [silent "UploadLights" .transfer [.write "light_list" .transferDst],
   silent "GBuffer" (.graphics .azure)
      [.write "gbuffer_albedo" .colorAttachment, .write "gbuffer_normal" .colorAttachment,
       .write "depth" .depthAttachment],
   silent "Lighting" .compute
      [.read "light_list" .shaderRead, .read "gbuffer_albedo" .shaderRead,
       .read "gbuffer_normal" .shaderRead, .read "depth" .shaderRead, .write "hdr" .shaderWrite],
   silent "TAA" .compute [.read "hdr" .shaderRead, .readWrite "taa_history" .shaderWrite],
   silent "Tonemap" (.graphics .azure)
      [.read "taa_history" .shaderRead, .write "ldr" .colorAttachment],
   silent "NormalDebug" (.graphics .azure)
      [.createImage "debug_view" (target .r8g8b8a8Unorm) false,
       .read "gbuffer_normal" .shaderRead, .write "debug_view" .colorAttachment],
   silent "Blit" .transfer [.read "ldr" .transferSrc, .write "swapchain" .transferDst]]

/-- Declares the renderer. -/
def declare (g : Graph) : Logged Graph := do
  let g ← resources.foldlM (fun (g : Graph) op => return (← g.register op).2) g
  declarations.foldlM (fun (g : Graph) d => return (← g.addPass d).2) g

/-! ## The report -/

/-- Reports lines. -/
def reportLines (lines : List String) : Logged Unit := ⟨(), lines.map .report⟩

/-- The line for a frame. -/
def frameLine (frame commands blocks bytes images : Nat) : String :=
  s!"frame {frame}: {commands} commands recorded, pool {blocks} blocks / " ++
    s!"{oneDecimal bytes (1024 * 1024)} MiB, {images} live images"

/-- The line for a memory block. -/
def blockLine (b : MemoryBlock) : String :=
  s!"block frame={b.frame} size={b.size} bytes " ++
    s!"last occupant=[{b.lifetime.first}, {b.lifetime.last}]"

/-- The line for the end. -/
def releasedLine (d : Device) : String :=
  s!"released, {d.liveAllocations} allocations still alive"

/-- Executes a frame and reports on it. -/
def runFrame (g : Graph) (frame : Nat) : Outcome Graph := do
  let (_, g) ← g.execute (frame % g.settings.framesInFlight)
  let (commands, device) := g.device.drainCommands
  let bytes ← (g.pool.totalBytes : Except Fault Nat)
  (reportLines [frameLine frame commands.length g.pool.blocks.length bytes device.images.length] :
    Logged Unit)
  return { g with device }

/-- Compiles the renderer, executes two rounds of frames, and reports on all of it. -/
def run (settings : Settings) : Outcome Unit := do
  let g ← (declare (.empty {} settings) : Logged Graph)
  let g ← (g.compile : Logged Graph)
  (reportLines g.planLines : Logged Unit)
  let g ← (List.range (settings.framesInFlight * 2)).foldlM runFrame g
  (reportLines (g.pool.blocks.map blockLine) : Logged Unit)
  (reportLines [releasedLine g.dispose.device] : Logged Unit)

end FrameGraph.Deferred
