import FrameGraph.Deferred
import FrameGraph.Settings.Text

/-!
# The command line

Reports on the deferred renderer under the settings of a file: the one named on the command line,
or else the usual one, if it is there.  The report goes to the standard error.
-/

set_option autoImplicit false

open FrameGraph

/-- The usual settings file. -/
def usualSettingsFile : String := "resources/rg_settings.toml"

/-- The name of a file in quotes. -/
def quoted (path : String) : String := s!"\"{path}\""

/-- Shows an event on the standard error, if it is severe enough. -/
def showEvent (event : Event) : IO Unit := do
  if event.shownAt (some .info) then
    IO.eprintln s!"[{event.level.text}] {event.text}"

/-- Reads the settings of a file. -/
def readSettings (path : String) : IO (Except SettingsError Settings) := do
  let content ← (some <$> IO.FS.readFile path) <|> pure none
  return Settings.ofFile (quoted path) content

/-- Reads the usual settings, or takes the standard ones if there is no such file. -/
def usualSettings : IO (Except SettingsError Settings) := do
  try
    return Settings.ofFile (quoted usualSettingsFile) (some (← IO.FS.readFile usualSettingsFile))
  catch
    | .noFileOrDirectory _ _ _ =>
        showEvent (.report s!"{quoted usualSettingsFile} not found, using default settings")
        return .ok {}
    | _ => return Settings.ofFile (quoted usualSettingsFile) none

def main (args : List String) : IO UInt32 := do
  let settings ←
    match args with
    | path :: _ => readSettings path
    | [] => usualSettings
  match settings with
  | .error error =>
      IO.eprintln s!"Error: {error.message}"
      return 1
  | .ok settings =>
      let report := Deferred.run settings
      report.events.forM showEvent
      match report.result with
      | .ok _ => return 0
      | .error fault =>
          IO.eprintln fault.message
          return 101
