import FrameGraph.Settings
import FrameGraph.Toml.Document

/-!
# Settings as text

Settings are kept in a configuration text with one key for each of them.  A missing key stands for
the standard value and unknown keys are ignored, but a value of another kind spoils the text.
-/

set_option autoImplicit false

namespace FrameGraph

/-- Why settings cannot be read or written. -/
inductive SettingsError where
  /-- The text is not well-formed, or a value is of another kind. -/
  | malformed
  /-- No frame would be in flight. -/
  | noFrames
  /-- The file cannot be read. -/
  | unreadable (path : String)
  /-- The file can be read, but its text is rejected. -/
  | rejected (path : String) (cause : SettingsError)
  /-- The number of frames in flight is not an integer of a text. -/
  | tooManyFrames
  deriving DecidableEq, Repr

/-- The wording of an error, without its cause. -/
def SettingsError.message : SettingsError → String
  | .malformed => "解析 RenderGraph 配置失败"
  | .noFrames => "fif_count 必须大于 0"
  | .unreadable path => s!"读取配置文件失败: {path}"
  | .rejected path _ => s!"加载配置文件失败: {path}"
  | .tooManyFrames => "序列化配置失败"

namespace Settings

/-! ## Reading -/

/-- The count that a value stands for. -/
def count? : Toml.Node → Option Nat
  | .integer value => if 0 ≤ value then some value.toNat else none
  | _ => none

/-- The truth value that a value stands for. -/
def truth? : Toml.Node → Option Bool
  | .boolean value => some value
  | _ => none

/-- What is under a key; the standard value if the key is missing. -/
def underKey? {α : Type} (entries : Toml.Entries) (key : String) (read : Toml.Node → Option α)
    (standard : α) : Option α :=
  match entries.lookup key with
  | none => some standard
  | some node => read node

/-- The settings that the keys of a text describe. -/
def ofEntries? (entries : Toml.Entries) : Option Settings := do
  let standard : Settings := {}
  let framesInFlight ← underKey? entries "fif_count" count? standard.framesInFlight
  let shareMemory ← underKey? entries "enable_aliasing" truth? standard.shareMemory
  let printPlan ← underKey? entries "print_execution_plan" truth? standard.printPlan
  let labelPasses ← underKey? entries "debug_labels" truth? standard.labelPasses
  return { framesInFlight, shareMemory, printPlan, labelPasses }

/-- Reads settings from a text. -/
def ofText (text : String) : Except SettingsError Settings :=
  match (Toml.Entries.ofText? text).bind ofEntries? with
  | none => .error .malformed
  | some settings => if settings.framesInFlight = 0 then .error .noFrames else .ok settings

/-- Reads settings from the content of a file, if it has one. -/
def ofFile (path : String) : (content : Option String) → Except SettingsError Settings
  | none => .error (.unreadable path)
  | some content => (ofText content).mapError (.rejected path)

/-! ## Writing -/

/-- The word for a truth value. -/
def truthText : Bool → String
  | true => "true"
  | false => "false"

/-- The least number that is too large for an integer of a text. -/
def integerLimit : Nat := 0x8000000000000000

/-- Writes settings, one key in each line. -/
def toText (s : Settings) : Except SettingsError String :=
  if s.framesInFlight < integerLimit then
    .ok (s!"fif_count = {s.framesInFlight}\n" ++
      s!"enable_aliasing = {truthText s.shareMemory}\n" ++
      s!"print_execution_plan = {truthText s.printPlan}\n" ++
      s!"debug_labels = {truthText s.labelPasses}\n")
  else .error .tooManyFrames

end Settings

end FrameGraph
