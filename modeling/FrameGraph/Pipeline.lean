import FrameGraph.Mask

/-!
# Pipeline stages and memory accesses

The flags that synchronisation speaks about: where in the pipeline work happens (`Stage`) and how
it touches memory (`Access`).  `Access.writes` collects the accesses that change memory; every
other access only reads.

`StageMask.describe` and `AccessMask.describe` are the readable forms of the execution plan.
-/

set_option autoImplicit false

namespace FrameGraph

namespace Stage

def none : StageMask := .none
def topOfPipe : StageMask := .bit 0
def drawIndirect : StageMask := .bit 1
def vertexInput : StageMask := .bit 2
def vertexShader : StageMask := .bit 3
def tessellationControl : StageMask := .bit 4
def tessellationEvaluation : StageMask := .bit 5
def geometryShader : StageMask := .bit 6
def fragmentShader : StageMask := .bit 7
def earlyFragmentTests : StageMask := .bit 8
def lateFragmentTests : StageMask := .bit 9
def colorAttachmentOutput : StageMask := .bit 10
def computeShader : StageMask := .bit 11
def transfer : StageMask := .bit 12
def bottomOfPipe : StageMask := .bit 13
def host : StageMask := .bit 14
def allGraphics : StageMask := .bit 15
def allCommands : StageMask := .bit 16
def copy : StageMask := .bit 32
def resolve : StageMask := .bit 33
def blit : StageMask := .bit 34
def clear : StageMask := .bit 35
def indexInput : StageMask := .bit 36
def vertexAttributeInput : StageMask := .bit 37
def preRasterization : StageMask := .bit 38

/-- The stages in which depth and stencil are tested. -/
def depthTests : StageMask := earlyFragmentTests ||| lateFragmentTests

/-- The stages that the execution plan names. -/
def planNames : List (StageMask × String) :=
  [(topOfPipe, "TOP_OF_PIPE"), (drawIndirect, "DRAW_INDIRECT"), (vertexInput, "VERTEX_INPUT"),
   (vertexShader, "VERTEX_SHADER"), (fragmentShader, "FRAGMENT_SHADER"),
   (earlyFragmentTests, "EARLY_FRAGMENT_TESTS"), (lateFragmentTests, "LATE_FRAGMENT_TESTS"),
   (colorAttachmentOutput, "COLOR_ATTACHMENT_OUTPUT"), (computeShader, "COMPUTE_SHADER"),
   (transfer, "TRANSFER"), (bottomOfPipe, "BOTTOM_OF_PIPE"), (host, "HOST"),
   (allGraphics, "ALL_GRAPHICS"), (allCommands, "ALL_COMMANDS")]

/-- The stages that are named only when the execution plan has no name for any bit of a mask. -/
def otherNames : List (StageMask × String) :=
  [(tessellationControl, "TESSELLATION_CONTROL_SHADER"),
   (tessellationEvaluation, "TESSELLATION_EVALUATION_SHADER"),
   (geometryShader, "GEOMETRY_SHADER"), (copy, "COPY"), (resolve, "RESOLVE"), (blit, "BLIT"),
   (clear, "CLEAR"), (indexInput, "INDEX_INPUT"),
   (vertexAttributeInput, "VERTEX_ATTRIBUTE_INPUT"),
   (preRasterization, "PRE_RASTERIZATION_SHADERS")]

end Stage

namespace Access

def none : AccessMask := .none
def indirectCommandRead : AccessMask := .bit 0
def indexRead : AccessMask := .bit 1
def vertexAttributeRead : AccessMask := .bit 2
def uniformRead : AccessMask := .bit 3
def inputAttachmentRead : AccessMask := .bit 4
def shaderRead : AccessMask := .bit 5
def shaderWrite : AccessMask := .bit 6
def colorAttachmentRead : AccessMask := .bit 7
def colorAttachmentWrite : AccessMask := .bit 8
def depthAttachmentRead : AccessMask := .bit 9
def depthAttachmentWrite : AccessMask := .bit 10
def transferRead : AccessMask := .bit 11
def transferWrite : AccessMask := .bit 12
def hostRead : AccessMask := .bit 13
def hostWrite : AccessMask := .bit 14
def memoryRead : AccessMask := .bit 15
def memoryWrite : AccessMask := .bit 16
def sampledRead : AccessMask := .bit 32
def storageRead : AccessMask := .bit 33
def storageWrite : AccessMask := .bit 34

/-- The accesses that change memory. -/
def writes : AccessMask :=
  storageWrite ||| shaderWrite ||| colorAttachmentWrite ||| depthAttachmentWrite |||
    transferWrite ||| hostWrite ||| memoryWrite

/-- The accesses that the execution plan names. -/
def planNames : List (AccessMask × String) :=
  [(indirectCommandRead, "INDIRECT_CMD_READ"), (indexRead, "INDEX_READ"),
   (vertexAttributeRead, "VERTEX_ATTR_READ"), (uniformRead, "UNIFORM_READ"),
   (sampledRead, "SHADER_SAMPLED_READ"), (storageRead, "STORAGE_READ"),
   (storageWrite, "STORAGE_WRITE"), (colorAttachmentRead, "COLOR_ATTACH_READ"),
   (colorAttachmentWrite, "COLOR_ATTACH_WRITE"), (depthAttachmentRead, "DEPTH_ATTACH_READ"),
   (depthAttachmentWrite, "DEPTH_ATTACH_WRITE"), (transferRead, "TRANSFER_READ"),
   (transferWrite, "TRANSFER_WRITE"), (hostWrite, "HOST_WRITE"), (memoryRead, "MEMORY_READ"),
   (memoryWrite, "MEMORY_WRITE")]

/-- The accesses that are named only when the execution plan has no name for any bit of a mask. -/
def otherNames : List (AccessMask × String) :=
  [(inputAttachmentRead, "INPUT_ATTACHMENT_READ"), (shaderRead, "SHADER_READ"),
   (shaderWrite, "SHADER_WRITE"), (hostRead, "HOST_READ")]

end Access

/-- The names of the flags of `names` that a mask holds.  A mask that holds none of them is
described by `others`, bit by bit. -/
def Mask.planText {family : FlagFamily} (names others : List (Mask family × String))
    (m : Mask family) : String :=
  if m.isEmpty then "NONE"
  else
    match (names.filter fun entry => m.contains entry.1).map (·.2) with
    | [] => m.describe others
    | found => " | ".intercalate found

/-- The readable form of a set of stages. -/
def StageMask.describe (m : StageMask) : String := m.planText Stage.planNames Stage.otherNames

/-- The readable form of a set of accesses. -/
def AccessMask.describe (m : AccessMask) : String := m.planText Access.planNames Access.otherNames

end FrameGraph
