import FactorySync.Config.Reading
import FactorySync.Disk.Basic

/-!
# Settings files

Settings come from a file that is named, or from the file `morphgen.json` in the root directory of a
project. Where that one is missing, every setting has its default.
-/

namespace FactorySync

/-- Why settings cannot be loaded. -/
inductive LoadProblem where
  | unreadable (path : String)
  | malformed (path : String) (fault : Json.Fault)
  | invalid (problem : ConfigProblem)
  deriving Repr, DecidableEq

def LoadProblem.message : LoadProblem → String
  | .unreadable path => s!"failed to read config '{path}'"
  | .malformed path _ => s!"invalid config '{path}'"
  | .invalid problem => problem.message

namespace Config

/-- The name of the settings file of a project. -/
def fileName : String := "morphgen.json"

/-- The usable settings that a text gives. -/
def ofText (path : String) (text : List Char) : Except LoadProblem Config :=
  match ofJson text with
  | .error fault => .error (.malformed path fault)
  | .ok c =>
    match c.problem? with
    | some problem => .error (.invalid problem)
    | none => .ok c

/-- Loads settings from a file. -/
def load (disk : Disk) (path : String) : Except LoadProblem Config :=
  match disk.read? path with
  | some text => ofText path text
  | none => .error (.unreadable path)

/-- Loads the settings of the project with a root directory. -/
def loadFromRoot (disk : Disk) (root : String) : Except LoadProblem Config :=
  let path := Path.combine root fileName
  if disk.hasFile path then load disk path else .ok {}

end Config
end FactorySync
