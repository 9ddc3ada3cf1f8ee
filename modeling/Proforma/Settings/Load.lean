import Proforma.Files.Basic
import Proforma.Settings.Basic
import Proforma.Toml.Reader

/-!
Where settings come from: a file that was asked for, else the file that the environment names,
else one in the home directory. Only a file that was asked for must exist.
-/
namespace Proforma

inductive SettingsError where
  | absent (path : String)
  | unreadable (path : String) (fault : FileFault)
  | malformed (path : String)
  | invalid (path : String) (fault : SettingsFault)
  deriving DecidableEq, Repr

def SettingsError.message : SettingsError → String
  | absent path => "Config file not found: " ++ path
  | unreadable path fault => "Failed to read config file: " ++ path ++ ": " ++ fault.message
  | malformed path => "Failed to parse config file: " ++ path
  | invalid path fault => "Invalid config file: " ++ path ++ ": " ++ fault.message

/-- What a program is told about its surroundings. -/
structure Surroundings where
  files : Files
  /-- The settings file that the environment names. -/
  settingsPath : Option String
  home : String

namespace Settings

def loadFrom (files : Files) (path : String) : Except SettingsError Settings := do
  let text ← match files.read path with
    | .ok text => .ok text
    | .error fault => .error (.unreadable path fault)
  match (Toml.read? text).bind decode? with
  | none => .error (.malformed path)
  | some s =>
    match s.validate with
    | .ok () => .ok s
    | .error fault => .error (.invalid path fault)

/-- The file that is read when none is asked for. An empty name in the environment is none. -/
def implicitPath (around : Surroundings) : String :=
  match around.settingsPath.filter fun path => !path.isEmpty with
  | some path => path
  | none => Files.join (Files.join around.home ".pview") "config.toml"

def load (around : Surroundings) (asked : Option String) : Except SettingsError Settings :=
  match asked with
  | some path => if around.files.has path then loadFrom around.files path else .error (.absent path)
  | none =>
    let path := implicitPath around
    if around.files.has path then loadFrom around.files path else .ok standard

end Settings

end Proforma
