import FactorySync.Program.Module
import FactorySync.Project.Basic

/-!
# Programs

The files of a project as they were read, with what is looked up in them again and again: each file
as a module, and the interfaces by identity.
-/

namespace FactorySync

/-- An interface is identified by its file and its name: several declarations of one name in one
file make up one interface. -/
structure InterfaceId where
  file : FileId
  name : String
  deriving Repr, DecidableEq, Inhabited

/-- An interface with its declarations in source order. -/
structure Interface where
  id : InterfaceId
  declarations : List Node
  deriving Inhabited

structure Program where
  /-- The files in the order of their numbers. -/
  files : List SourceFile
  /-- The files as modules. -/
  modules : List Module
  /-- The interfaces in the order of their first declarations. -/
  interfaces : List Interface

namespace Program

/-- The interface declarations among the statements of a file, each with what it declares. -/
def interfaceDeclarations (f : SourceFile) (file : FileId) : List (InterfaceId × Node) :=
  (f.statements.filter (·.kind == .interfaceDeclaration)).map fun n =>
    (⟨file, (n.nameIn? .name).getD ""⟩, n)

/-- All interface declarations, by file and place. -/
def allInterfaceDeclarations (files : List SourceFile) : List (InterfaceId × Node) :=
  files.zipIdx.flatMap fun f => interfaceDeclarations f.1 f.2

def ofFiles (files : List SourceFile) : Program :=
  let declarations := allInterfaceDeclarations files
  { files
    modules := files.map Module.ofFile
    interfaces := ((declarations.map (·.1)).eraseDups).map fun id =>
      { id, declarations := (declarations.filter (·.1 == id)).map (·.2) } }

/-- Reads every file of a project. -/
def ofProject (p : Project) : Program := ofFiles (p.files.map fun f => .parse f.path f.text)

def file? (p : Program) (id : FileId) : Option SourceFile := p.files[id]?

def module? (p : Program) (id : FileId) : Option Module := p.modules[id]?

def path (p : Program) (id : FileId) : String := ((p.file? id).map (·.path)).getD ""

def statements (p : Program) (id : FileId) : List Node := ((p.file? id).map (·.statements)).getD []

def interface? (p : Program) (id : InterfaceId) : Option Interface :=
  p.interfaces.find? (·.id == id)

def hasInterface (p : Program) (id : InterfaceId) : Bool := (p.interface? id).isSome

/-- The file with this path. -/
def position? (p : Program) (path : String) : Option FileId := p.files.findIdx? (·.path == path)

end Program
end FactorySync
