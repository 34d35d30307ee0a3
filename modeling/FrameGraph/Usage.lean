import FrameGraph.Info
import FrameGraph.State

/-!
# Passes and the usages of resources

A pass says for what it uses a resource: a `Usage`.  Together with the kind of the pass, the kind
of the resource and the directions of the access, the usage fixes the state that the resource must
be in: `Usage.resolve`.

Principal statement: `resolve_layout_buffer` — a buffer is never in a layout.
-/

set_option autoImplicit false

namespace FrameGraph

/-- The colour of a label, as the bit patterns of four single-precision numbers. -/
structure LabelColor where
  red : UInt32
  green : UInt32
  blue : UInt32
  alpha : UInt32
  deriving DecidableEq, Repr, Inhabited

namespace LabelColor

/-- The colour (0.2, 0.6, 1.0, 1.0). -/
def azure : LabelColor := ⟨0x3E4CCCCD, 0x3F19999A, 0x3F800000, 0x3F800000⟩

/-- The colour (1.0, 0.5, 0.1, 1.0). -/
def orange : LabelColor := ⟨0x3F800000, 0x3F000000, 0x3DCCCCCD, 0x3F800000⟩

/-- The colour (0.5, 0.5, 0.5, 1.0). -/
def grey : LabelColor := ⟨0x3F000000, 0x3F000000, 0x3F000000, 0x3F800000⟩

/-- The colour (0.0, 0.0, 0.0, 1.0). -/
def black : LabelColor := ⟨0, 0, 0, 0x3F800000⟩

end LabelColor

/-- What kind of work a pass records. -/
inductive PassKind where
  | graphics (labelColor : LabelColor)
  | compute
  | transfer
  deriving DecidableEq, Repr, Inhabited

namespace PassKind

/-- The word for a kind of pass. -/
def text : PassKind → String
  | .graphics _ => "Graphics"
  | .compute => "Compute"
  | .transfer => "Transfer"

/-- The colour of the label around the commands of a pass. -/
def labelColor : PassKind → LabelColor
  | .graphics color => color
  | .compute => .orange
  | .transfer => .grey

/-- The stages at which a pass accesses resources from its shaders. -/
def shaderStages : PassKind → StageMask
  | .graphics _ => Stage.vertexShader ||| Stage.fragmentShader
  | .compute => Stage.computeShader
  | .transfer => Stage.allCommands

end PassKind

/-- What a pass uses a resource for. -/
inductive Usage where
  | colorAttachment
  | depthAttachment
  | shaderRead
  | shaderWrite
  | transferSrc
  | transferDst
  | present
  | vertexBuffer
  | indexBuffer
  | indirectBuffer
  | uniformBuffer
  deriving DecidableEq, Repr, Inhabited

namespace Usage

/-- The word for a usage. -/
def text : Usage → String
  | .colorAttachment => "ColorAttachment"
  | .depthAttachment => "DepthAttachment"
  | .shaderRead => "ShaderRead"
  | .shaderWrite => "ShaderWrite"
  | .transferSrc => "TransferSrc"
  | .transferDst => "TransferDst"
  | .present => "Present"
  | .vertexBuffer => "VertexBuffer"
  | .indexBuffer => "IndexBuffer"
  | .indirectBuffer => "IndirectBuffer"
  | .uniformBuffer => "UniformBuffer"

/-- All usages. -/
def all : List Usage :=
  [.colorAttachment, .depthAttachment, .shaderRead, .shaderWrite, .transferSrc, .transferDst,
   .present, .vertexBuffer, .indexBuffer, .indirectBuffer, .uniformBuffer]

/-- The usage with that name. -/
def named? (name : String) : Option Usage := all.find? fun usage => usage.text = name

/-- Holds if a resource can be read for this usage. -/
def allowsRead : Usage → Bool
  | .transferDst | .present => false
  | _ => true

/-- Holds if a resource can be written for this usage. -/
def allowsWrite : Usage → Bool
  | .colorAttachment | .depthAttachment | .shaderWrite | .transferDst | .present => true
  | _ => false

/-- Holds if a resource can be accessed in this direction. -/
def allows (usage : Usage) (isWrite : Bool) : Bool :=
  if isWrite then usage.allowsWrite else usage.allowsRead

/-- Holds if resources of this kind have the usage. -/
def supports : Usage → ResourceKind → Bool
  | .colorAttachment, kind | .depthAttachment, kind | .present, kind => kind = .image
  | .vertexBuffer, kind | .indexBuffer, kind | .indirectBuffer, kind
  | .uniformBuffer, kind => kind = .buffer
  | .shaderRead, _ | .shaderWrite, _ | .transferSrc, _ | .transferDst, _ => true

/-- The state that a use requires.  Attachments that are both read and written get the accesses of
both directions; a shader that only reads an image samples it. -/
def resolve (usage : Usage) (pass : PassKind) (kind : ResourceKind) (read write : Bool) :
    ImageState :=
  let layoutOfImage (layout : Layout) : Layout :=
    match kind with
    | .image => layout
    | .buffer => .undefined
  match usage with
  | .colorAttachment =>
      match read, write with
      | true, true => .colorAttachmentReadWrite
      | true, false => .colorAttachmentRead
      | false, _ => .colorAttachmentWrite
  | .depthAttachment =>
      match read, write with
      | true, true => .depthAttachmentReadWrite
      | true, false => .depthAttachmentReadOnly
      | false, _ => .depthAttachmentWrite
  | .shaderRead =>
      { stage := pass.shaderStages
        access :=
          match kind with
          | .image => Access.sampledRead
          | .buffer => Access.storageRead
        layout := layoutOfImage .shaderReadOnly }
  | .shaderWrite =>
      { stage := pass.shaderStages
        access :=
          (if read then Access.storageRead else Access.none) |||
            (if write then Access.storageWrite else Access.none)
        layout := layoutOfImage .general }
  | .transferSrc => { ImageState.transferSrc with layout := layoutOfImage .transferSrc }
  | .transferDst => { ImageState.transferDst with layout := layoutOfImage .transferDst }
  | .present => .present
  | .vertexBuffer => BufferState.vertexBuffer.toImageState
  | .indexBuffer => BufferState.indexBuffer.toImageState
  | .indirectBuffer => BufferState.indirectBuffer.toImageState
  | .uniformBuffer => ⟨pass.shaderStages, Access.uniformRead, .undefined⟩

/-- A buffer is never in a layout. -/
theorem resolve_layout_buffer {usage : Usage} (h : usage.supports .buffer = true)
    (pass : PassKind) (read write : Bool) :
    (usage.resolve pass .buffer read write).layout = .undefined := by
  cases usage with
  | colorAttachment | depthAttachment | present => cases h
  | _ => rfl

end Usage

end FrameGraph
