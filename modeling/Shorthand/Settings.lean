import Shorthand.Files
import Shorthand.Json.Record
import Shorthand.Json.Pretty

/-! # Settings

The settings of a user, the file that holds them, and where that file and the snippet file are.
-/
namespace Shorthand

open Json Json.Tree

structure Settings where
  /-- Where the snippets are, if not in the configuration directory. -/
  snippetsFile : Option String
  /-- The quiet window before the preview is refreshed, in milliseconds. -/
  previewDebounce : Nat
  logLevel : String
deriving DecidableEq, Repr

namespace Settings

def default : Settings := ⟨none, 300, "info"⟩

def toTree (s : Settings) : Tree :=
  record ((s.snippetsFile.map fun p => ("snippetsFile", ofString p)).toList ++
    [("previewDebounceMs", ofWord s.previewDebounce), ("logLevel", ofString s.logLevel)])

def fieldNames : List String := ["snippetsFile", "previewDebounceMs", "logLevel"]

def ofTree? (t : Tree) : Option Settings := do
  let f ← t.fields? fieldNames
  let snippetsFile ← f.withDefault "snippetsFile" none (orNull asString?)
  let previewDebounce ← f.withDefault "previewDebounceMs" default.previewDebounce asWord?
  let logLevel ← f.withDefault "logLevel" default.logLevel asString?
  return { snippetsFile, previewDebounce, logLevel }

def ofText? (s : String) : Option Settings := (parse? s.toList).bind ofTree?

end Settings

inductive SettingsError where
  | noDirectory
  | unreadable (path detail : String)
  | malformed (path detail : String)
deriving DecidableEq, Repr

def SettingsError.message : SettingsError → String
  | noDirectory => "Config directory not found"
  | unreadable path detail => "Failed to read settings " ++ path ++ ": " ++ detail
  | malformed path detail => "Invalid settings " ++ path ++ ": " ++ detail

structure Environment where
  configDirectory : Option String
  configHome : Option String
  home : Option String

namespace Environment

def isSet (value : Option String) : Option String := value.filter (· ≠ "")

/-- The directory for the configuration of all programs. -/
def platformDirectory? (e : Environment) : Option String :=
  match e.configHome.filter (·.toList.head? = some '/') with
  | some dir => some dir
  | none => (isSet e.home).map (Path.join · ".config")

def configDirectory? (e : Environment) : Option String :=
  match isSet e.configDirectory with
  | some dir => some dir
  | none => e.platformDirectory?.map (Path.join · "polyglot")

def inConfigDirectory (e : Environment) (name : String) : Except SettingsError String :=
  match e.configDirectory? with
  | none => .error .noDirectory
  | some dir => .ok (Path.join dir name)

def usualSettingsFile (e : Environment) : Except SettingsError String :=
  e.inConfigDirectory "settings.json"

def usualSnippetsFile (e : Environment) : Except SettingsError String :=
  e.inConfigDirectory "snippets.json"

end Environment

namespace Settings

/-- Reads a settings file. A missing one stands for the default settings. -/
def load (files : Files) (path : String) : Except SettingsError Settings :=
  match files.readText (.ofString path) with
  | .error .notFound => .ok default
  | .error fault => .error (.unreadable path fault.message)
  | .ok text =>
    match ofText? text with
    | none => .error (.malformed path "not a settings record")
    | some s => .ok s

def loadUsual (files : Files) (e : Environment) : Except SettingsError Settings :=
  e.usualSettingsFile.bind (load files)

def snippetsFileIn (s : Settings) (e : Environment) : Except SettingsError String :=
  match s.snippetsFile with
  | some path => .ok path
  | none => e.usualSnippetsFile

end Settings

end Shorthand
