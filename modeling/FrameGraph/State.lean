import FrameGraph.Pipeline

/-!
# Resource states

The state of an image says at which stages it is accessed, how, and in which layout; a buffer has
no layout.  A state is what a use of a resource requires and what a barrier leads from and to.
-/

set_option autoImplicit false

namespace FrameGraph

/-- The arrangement of an image in memory. -/
structure Layout where
  code : Int
  deriving DecidableEq, Repr, Inhabited

namespace Layout

def undefined : Layout := ⟨0⟩
def general : Layout := ⟨1⟩
def colorAttachment : Layout := ⟨2⟩
def depthAttachment : Layout := ⟨3⟩
def depthReadOnly : Layout := ⟨4⟩
def shaderReadOnly : Layout := ⟨5⟩
def transferSrc : Layout := ⟨6⟩
def transferDst : Layout := ⟨7⟩
def preinitialized : Layout := ⟨8⟩
def presentSrc : Layout := ⟨1000001002⟩

/-- The layouts that have a name. -/
def names : List (Layout × String) :=
  [(undefined, "UNDEFINED"), (general, "GENERAL"), (colorAttachment, "COLOR_ATTACHMENT_OPTIMAL"),
   (depthAttachment, "DEPTH_STENCIL_ATTACHMENT_OPTIMAL"),
   (depthReadOnly, "DEPTH_STENCIL_READ_ONLY_OPTIMAL"),
   (shaderReadOnly, "SHADER_READ_ONLY_OPTIMAL"), (transferSrc, "TRANSFER_SRC_OPTIMAL"),
   (transferDst, "TRANSFER_DST_OPTIMAL"), (preinitialized, "PREINITIALIZED"),
   (presentSrc, "PRESENT_SRC_KHR")]

/-- The name of a layout, or its number if it has none. -/
def text (l : Layout) : String :=
  match names.find? fun entry => entry.1 = l with
  | some (_, name) => name
  | none => toString l.code

end Layout

/-- How an image is accessed: at which stages, by which accesses, in which layout.  The state of a
buffer is written the same way with the undefined layout. -/
structure ImageState where
  stage : StageMask
  access : AccessMask
  layout : Layout
  deriving DecidableEq, Repr, Inhabited

/-- How a buffer is accessed. -/
structure BufferState where
  stage : StageMask
  access : AccessMask
  deriving DecidableEq, Repr, Inhabited

namespace ImageState

def undefined : ImageState := ⟨Stage.topOfPipe, Access.none, .undefined⟩
def general : ImageState :=
  ⟨Stage.allCommands, Access.memoryRead ||| Access.memoryWrite, .general⟩
def colorAttachmentWrite : ImageState :=
  ⟨Stage.colorAttachmentOutput, Access.colorAttachmentWrite, .colorAttachment⟩
def colorAttachmentRead : ImageState :=
  ⟨Stage.colorAttachmentOutput, Access.colorAttachmentRead, .colorAttachment⟩
def colorAttachmentReadWrite : ImageState :=
  ⟨Stage.colorAttachmentOutput, Access.colorAttachmentRead ||| Access.colorAttachmentWrite,
    .colorAttachment⟩
def depthAttachmentWrite : ImageState :=
  ⟨Stage.depthTests, Access.depthAttachmentWrite, .depthAttachment⟩
def depthAttachmentReadWrite : ImageState :=
  ⟨Stage.depthTests, Access.depthAttachmentRead ||| Access.depthAttachmentWrite, .depthAttachment⟩
def depthAttachmentReadOnly : ImageState :=
  ⟨Stage.depthTests, Access.depthAttachmentRead, .depthReadOnly⟩
def shaderReadFragment : ImageState :=
  ⟨Stage.fragmentShader, Access.sampledRead, .shaderReadOnly⟩
def shaderReadCompute : ImageState :=
  ⟨Stage.computeShader, Access.sampledRead, .shaderReadOnly⟩
def storageWriteCompute : ImageState := ⟨Stage.computeShader, Access.storageWrite, .general⟩
def storageReadWriteCompute : ImageState :=
  ⟨Stage.computeShader, Access.storageRead ||| Access.storageWrite, .general⟩
def transferSrc : ImageState := ⟨Stage.transfer, Access.transferRead, .transferSrc⟩
def transferDst : ImageState := ⟨Stage.transfer, Access.transferWrite, .transferDst⟩
def present : ImageState := ⟨Stage.bottomOfPipe, Access.none, .presentSrc⟩

/-- The predefined states by name. -/
def catalogue : List (String × ImageState) :=
  [("DEFAULT", undefined), ("UNDEFINED", undefined), ("GENERAL", general),
   ("COLOR_ATTACHMENT_WRITE", colorAttachmentWrite),
   ("COLOR_ATTACHMENT_READ", colorAttachmentRead),
   ("COLOR_ATTACHMENT_READ_WRITE", colorAttachmentReadWrite),
   ("DEPTH_ATTACHMENT_WRITE", depthAttachmentWrite),
   ("DEPTH_ATTACHMENT_READ_WRITE", depthAttachmentReadWrite),
   ("DEPTH_ATTACHMENT_READ_ONLY", depthAttachmentReadOnly),
   ("SHADER_READ_FRAGMENT", shaderReadFragment), ("SHADER_READ_COMPUTE", shaderReadCompute),
   ("STORAGE_WRITE_COMPUTE", storageWriteCompute),
   ("STORAGE_READ_WRITE_COMPUTE", storageReadWriteCompute), ("TRANSFER_SRC", transferSrc),
   ("TRANSFER_DST", transferDst), ("PRESENT", present)]

/-- The predefined state of that name. -/
def named? (name : String) : Option ImageState := catalogue.lookup name

/-- Holds if some access of the state changes memory. -/
def isWrite (s : ImageState) : Bool := s.access.intersects Access.writes

/-- Holds if no access of the state changes memory. -/
def isReadOnly (s : ImageState) : Bool := !s.isWrite

/-- The accesses that a barrier leading away from the state has to flush: its writes. -/
def srcAccess (s : ImageState) : AccessMask := s.access &&& Access.writes

/-- The state without its layout. -/
def toBufferState (s : ImageState) : BufferState := ⟨s.stage, s.access⟩

/-- Both states at once, in the layout of the first. -/
def union (s t : ImageState) : ImageState :=
  { s with stage := s.stage ||| t.stage, access := s.access ||| t.access }

end ImageState

namespace BufferState

def undefined : BufferState := ⟨Stage.topOfPipe, Access.none⟩
def vertexBuffer : BufferState := ⟨Stage.vertexInput, Access.vertexAttributeRead⟩
def indexBuffer : BufferState := ⟨Stage.indexInput, Access.indexRead⟩
def indirectBuffer : BufferState := ⟨Stage.drawIndirect, Access.indirectCommandRead⟩
def uniformCompute : BufferState := ⟨Stage.computeShader, Access.uniformRead⟩
def storageReadWriteCompute : BufferState :=
  ⟨Stage.computeShader, Access.storageRead ||| Access.storageWrite⟩
def transferSrc : BufferState := ⟨Stage.transfer, Access.transferRead⟩
def transferDst : BufferState := ⟨Stage.transfer, Access.transferWrite⟩
def hostWrite : BufferState := ⟨Stage.host, Access.hostWrite⟩

/-- The predefined states by name. -/
def catalogue : List (String × BufferState) :=
  [("DEFAULT", undefined), ("UNDEFINED", undefined), ("VERTEX_BUFFER", vertexBuffer),
   ("INDEX_BUFFER", indexBuffer), ("INDIRECT_BUFFER", indirectBuffer),
   ("UNIFORM_COMPUTE", uniformCompute),
   ("STORAGE_READ_WRITE_COMPUTE", storageReadWriteCompute), ("TRANSFER_SRC", transferSrc),
   ("TRANSFER_DST", transferDst), ("HOST_WRITE", hostWrite)]

/-- The predefined state of that name. -/
def named? (name : String) : Option BufferState := catalogue.lookup name

/-- The state in the undefined layout. -/
def toImageState (s : BufferState) : ImageState := ⟨s.stage, s.access, .undefined⟩

/-- Holds if some access of the state changes memory. -/
def isWrite (s : BufferState) : Bool := s.toImageState.isWrite

end BufferState

end FrameGraph
