import Mentions.Files
import Mentions.Path
import Mentions.Settings.Patch
import Mentions.Toml.Reader

/-! # Settings files

A settings file is a TOML document that is merged like a payload. When none is named, the nearest
one counts that lies in a directory on the way from the start of a search to the root.
-/

namespace Mentions

/-- Why a settings file does not count. -/
inductive SettingsError where
  | unreadable (path : String) (error : ReadError)
  | malformed (path reason : String)
  deriving DecidableEq, Repr

def SettingsError.message : SettingsError → String
  | unreadable path error => "failed to read " ++ path ++ ": " ++ error.message
  | malformed path reason => "invalid settings in " ++ path ++ ": " ++ reason

namespace Settings

variable {m : Type → Type} [Monad m]

/-- The settings that a document sets over the defaults. -/
def parse? (text : String) : Option Settings :=
  (Toml.parse? text).map fun payload => ofPayload (some payload)

/-- Loads a settings file. -/
def load (files : Files m) (path : String) : m (Except SettingsError Settings) := do
  match ← files.read path with
  | .error e => return .error (.unreadable path e)
  | .ok text =>
    match parse? text with
    | some s => return .ok s
    | none => return .error (.malformed path "not a TOML document")

/-- The first of the directories in which a settings file lies. -/
def firstFile (files : Files m) : List String → m (Option String)
  | [] => return none
  | dir :: rest => do
    let candidate := Path.join dir settingsFileName
    if ← files.isFile candidate then return some candidate else firstFile files rest

/-- The directories from a start on, nearest first. A start that is a file stands for the
directory it lies in. -/
def searchedDirectories (files : Files m) (start : String) : m (List String) := do
  if ← files.isFile start then
    return ((Path.parent? start).map Path.ancestors).getD []
  else return Path.ancestors start

/-- The nearest settings file. -/
def discover (files : Files m) (start : String) : m (Option String) := do
  firstFile files (← searchedDirectories files start)

end Settings
end Mentions
