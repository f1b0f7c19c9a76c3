import FactorySync.Disk.Discover
import FactorySync.Factory.Catalog
import FactorySync.Import.Reconcile
import FactorySync.Literal.Insert
import FactorySync.Program.Target

/-!
# Generation

A run replaces the generated factories of the target file and fits its imports to them. It goes
through three texts of the file: with the old factories cleared, with the new ones inserted, with
the imports reconciled. Before each of the three changes the file is read again and must have no
errors. The project itself is not changed; the run yields an `Outcome` that can be applied or
written.
-/

namespace FactorySync

/-- Why a run stops. -/
inductive GenerationProblem where
  | lookup (problem : LookupProblem)
  /-- The target file has errors; these are all notes on it. -/
  | broken (path : String) (notes : List String)
  /-- Two structures, or a structure and another member, share one name. -/
  | duplicateName (name first second : String)
  | project (problem : ProjectProblem)
  /-- A batch of edits could not be applied. -/
  | conflict (fault : Edit.Fault)
  deriving Repr, DecidableEq

namespace GenerationProblem

def message : GenerationProblem → String
  | .lookup problem => problem.message
  | .broken path notes => s!"'{path}' has syntax errors:\n" ++ "\n".intercalate notes
  | .duplicateName name first second =>
    s!"factory '{name}' would be generated for both '{first}' and '{second}'"
  | .project problem => problem.message
  | .conflict _ => "overlapping text changes"

/-- A word for the kind of problem. -/
def code : GenerationProblem → String
  | .lookup (.shapeMismatch ..) => "morphgen::shape_mismatch"
  | .lookup _ => "morphgen::not_found"
  | .broken .. => "morphgen::syntax"
  | .duplicateName .. => "morphgen::duplicate_factory_name"
  | .project _ => "morphgen::io"
  | .conflict _ => "morphgen::conflict"

/-- What to do about the problem. -/
def help? : GenerationProblem → Option String
  | .lookup (.shapeMismatch ..) =>
    some ("the structure object must be written as " ++
      "\x60export const Structure = \x7b ... \x7d as const;\x60")
  | .duplicateName .. =>
    some "exclude one of the structures in morphgen.json, or rename the member that collides"
  | _ => none

/-- A step of a run that looks something up. -/
def ofLookup {α : Type} : Except LookupProblem α → Except GenerationProblem α
  | .ok a => .ok a
  | .error problem => .error (.lookup problem)

/-- A step of a run that applies edits. -/
def ofEdits {α : Type} : Except Edit.Fault α → Except GenerationProblem α
  | .ok a => .ok a
  | .error fault => .error (.conflict fault)

/-- A step of a run that changes the project. -/
def ofProject {α : Type} : Except ProjectProblem α → Except GenerationProblem α
  | .ok a => .ok a
  | .error problem => .error (.project problem)

end GenerationProblem

/-- The result of a run, which is not stored anywhere yet. -/
structure Outcome where
  file : FileId
  path : String
  /-- The text of the target file before the run. -/
  before : List Char
  /-- The text of the target file after the run. -/
  after : List Char
  /-- The names of the factories that were inserted, in order. -/
  created : List String
  /-- The names of the factories that were cleared, in order. -/
  removed : List String
  importsAdded : List String
  importsRemoved : List String
  deriving Repr, DecidableEq

namespace Generation

open GenerationProblem (ofLookup ofEdits ofProject)

/-- The target file as it was read. It must have no errors. -/
def intact (p : Program) (file : FileId) : Except GenerationProblem SourceFile :=
  match p.file? file with
  | none => .error (.project (.unknownFile file))
  | some f => if f.hasErrors then .error (.broken f.path f.renderNotes) else .ok f

/-- The object literal that the settings name. -/
def target (p : Program) (file : FileId) (c : Config) : Except GenerationProblem Node :=
  ofLookup (p.findLiteral file c.targetConst .asserted)

/-- The structure for which a factory of this name was made first. -/
def holder? (name : String) (made : List (StructureRecord × Factory)) : Option String :=
  (made.find? (·.2.name == name)).map (·.1.name)

/-- The first two structures that share one name, if there are such. Those in `made` came before. -/
def rivals? (made : List (StructureRecord × Factory)) :
    List (StructureRecord × Factory) → Option GenerationProblem
  | [] => none
  | (r, f) :: rest =>
    match holder? f.name made with
    | some first => some (.duplicateName f.name first r.name)
    | none => rivals? (made ++ [(r, f)]) rest

/-- The first member that is not generated but has the name of a factory, if there is one. -/
def collision? (c : Config) (literal : Node) (made : List (StructureRecord × Factory)) :
    Option GenerationProblem :=
  (literal.members.filter (!·.isGenerated c.generatedPrefix)).findSome? fun m => do
    let name ← m.name?
    let structureName ← holder? name made
    return .duplicateName name structureName s!"the existing member of '{c.targetConst}'"

/-- Every name must be held once. -/
def checkNames (c : Config) (literal : Node) (made : List (StructureRecord × Factory)) :
    Except GenerationProblem Unit :=
  match rivals? [] made <|> collision? c literal made with
  | some problem => .error problem
  | none => .ok ()

/-- The target file, the factories it is to have and the text without the factories it has. -/
def clear (project : Project) (c : Config) :
    Except GenerationProblem (FileId × List Factory × MemberChange) := do
  let p := Program.ofProject project
  let file ← ofLookup (p.findFile c.targetFile)
  let f ← intact p file
  let literal ← target p file c
  let records := (Catalog.ofProgram p c).records c
  let factories := records.map (Factory.ofRecord c)
  checkNames c literal (records.zip factories)
  let cleared ← ofEdits (literal.clearGenerated f.text c.generatedPrefix)
  return (file, factories, cleared)

/-- The text with factories added. -/
def insert (project : Project) (c : Config) (file : FileId) (factories : List Factory) :
    Except GenerationProblem MemberChange := do
  let p := Program.ofProject project
  let f ← intact p file
  let literal ← target p file c
  ofEdits (literal.insertFactories f.text factories c.indent)

/-- The text with reconciled imports. -/
def reconcile (project : Project) (file : FileId) : Except GenerationProblem ImportChange := do
  let p := Program.ofProject project
  let f ← intact p file
  ofEdits (p.reconcileImports file f)

/-- A whole run. -/
def run (project : Project) (c : Config) : Except GenerationProblem Outcome := do
  let (file, factories, cleared) ← clear project c
  let withoutFactories ← ofProject (project.setText file cleared.text)
  let inserted ← insert withoutFactories c file factories
  let withFactories ← ofProject (withoutFactories.setText file inserted.text)
  let imports ← reconcile withFactories file
  let f := (project.file? file).getD default
  return {
    file
    path := f.path
    before := f.text
    after := imports.text
    created := inserted.names
    removed := cleared.names
    importsAdded := imports.added
    importsRemoved := imports.removed }

end Generation

namespace Outcome

/-- Whether the run changed nothing. -/
def isUpToDate (o : Outcome) : Bool := o.before == o.after

/-- Stores the new text in a project. -/
def apply (o : Outcome) (p : Project) : Except ProjectProblem Project := p.setText o.file o.after

/-- Stores the new text in a project and writes it to the disk, unless the run changed nothing.
Yields the path that was written. The project keeps the new text even if it cannot be written. -/
def write (o : Outcome) (p : Project) (disk : Disk) :
    Except ProjectProblem (Option String) × Project × Disk :=
  if o.isUpToDate then (.ok none, p, disk)
  else
    match o.apply p with
    | .error problem => (.error problem, p, disk)
    | .ok p =>
      match p.write disk o.file with
      | .error problem => (.error problem, p, disk)
      | .ok (path, p, disk) => (.ok (some path), p, disk)

end Outcome
end FactorySync
