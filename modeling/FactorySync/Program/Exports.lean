import FactorySync.Path.Module
import FactorySync.Program.Basic
import FactorySync.Search

/-!
# Exports

Which file an import means, and where a name that a file exports is declared. Exports may be passed
on from file to file, also in circles, so looking for the declaration is a search in the graph of
files and names.
-/

namespace FactorySync

/-- A declaration: the file and the name it has there. -/
structure Target where
  file : FileId
  name : String
  deriving Repr, DecidableEq

namespace Program

/-- The file that a specifier means in another file. -/
def resolveModule? (p : Program) (source : FileId) (specifier : String) : Option FileId :=
  (Path.candidates (p.path source) specifier).findSome? p.position?

/-- The way on to `name` as the file that a specifier means exports it, if it means any. -/
def through (p : Program) (source : FileId) (specifier name : String) : List (Step Target Target) :=
  (p.resolveModule? source specifier).toList.map fun file => .goTo ⟨file, name⟩

/-- Where a name used in a file leads: to a declaration there or through an import. -/
def localSteps (p : Program) (file : FileId) (m : Module) (name : String) :
    List (Step Target Target) :=
  if m.declares name then [.answer ⟨file, name⟩]
  else
    match m.namedImport? name with
    | some (specifier, exported) => p.through file specifier exported
    | none => []

/-- Where an export of names passes `name` on to. Of several items with one name the first
counts. -/
def reexportSteps (p : Program) (file : FileId) (m : Module) (name : String) :
    Reexport → List (Step Target Target)
  | .named items specifier =>
    match items.find? (·.1 == name), specifier with
    | some (_, first), some specifier => p.through file specifier first
    | some (_, first), none => p.localSteps file m first
    | none, _ => []
  | .all _ => []

/-- Where an export of everything passes `name` on to. -/
def starSteps (p : Program) (file : FileId) (name : String) : Reexport → List (Step Target Target)
  | .all specifier => p.through file specifier name
  | .named _ _ => []

/-- Where an exported name leads: to the file's own exported declaration; else through its exports
of names and then through its exports of everything. -/
def exportSteps (p : Program) (t : Target) : List (Step Target Target) :=
  match p.module? t.file with
  | none => []
  | some m =>
    if m.exportsOwn t.name then [.answer t]
    else
      m.reexports.flatMap (p.reexportSteps t.file m t.name) ++
        m.reexports.flatMap (p.starSteps t.file t.name)

/-- A bound on the pairs of a file and a name that one search can come by: besides the name looked
for, only names that imports and exports mention occur. -/
def searchAllowance (p : Program) : Nat :=
  p.files.length * ((p.modules.flatMap (·.mentions)).length + 1)

/-- The declaration of a name that a file exports. -/
def resolveExport? (p : Program) (file : FileId) (name : String) : Option Target :=
  Search.firstAnswer p.exportSteps p.searchAllowance ⟨file, name⟩

/-- The files other than `except` that export a name, in the order of their numbers. -/
def exporters (p : Program) (name : String) (except : FileId) : List FileId :=
  (List.range p.files.length).filter fun id => id != except && (p.resolveExport? id name).isSome

end Program
end FactorySync
