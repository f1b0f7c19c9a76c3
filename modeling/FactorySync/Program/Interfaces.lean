import FactorySync.Program.Exports
import FactorySync.Text.Replace

/-!
# Interfaces

Which interface a name means, and which interfaces another one extends. A structure is an interface
whose name ends with the structure suffix.
-/

namespace FactorySync

namespace Interface

/-- The types after `extends`, over all declarations. -/
def bases (i : Interface) : List Node :=
  i.declarations.flatMap fun n =>
    ((n.childrenIn .heritageClauses).filter (·.detail == .heritage .extendsKeyword)).flatMap
      (·.childrenIn .types)

/-- The type parameters of the first declaration that has any. -/
def typeParameters (i : Interface) : List Node :=
  ((i.declarations.find? (·.hasList .typeParameters)).map (·.childrenIn .typeParameters)).getD []

end Interface

namespace Program

/-- The interface that an exported name means. -/
def exportedInterface? (p : Program) (file : FileId) (name : String) : Option InterfaceId := do
  let target ← p.resolveExport? file name
  let id : InterfaceId := ⟨target.file, target.name⟩
  if p.hasInterface id then return id else none

/-- The exported declaration behind a name that a file imports in braces. -/
def importedTarget? (p : Program) (file : FileId) (name : String) : Option Target := do
  let (specifier, exported) ← (← p.module? file).namedImport? name
  p.resolveExport? (← p.resolveModule? file specifier) exported

/-- The interface that a name without dots means in a file: the one declared there, else the
imported one; a name of neither kind means the first interface so called in any file. -/
def simpleInterface? (p : Program) (file : FileId) (name : String) : Option InterfaceId :=
  if p.hasInterface ⟨file, name⟩ then some ⟨file, name⟩
  else
    match p.importedTarget? file name with
    | some target =>
      let id : InterfaceId := ⟨target.file, target.name⟩
      if p.hasInterface id then some id else none
    | none => (p.interfaces.find? (·.id.name == name)).map (·.id)

/-- The interface that `space.name` means in a file, where `space` is a namespace import. -/
def memberInterface? (p : Program) (file : FileId) (space name : String) : Option InterfaceId := do
  let m ← p.module? file
  let source ← (m.namespaceImports space).findSome? (p.resolveModule? file)
  p.exportedInterface? source name

/-- The interface that a name means in a file. Names with more than one dot mean none. -/
def resolveInterface? (p : Program) (file : FileId) (name : Node) : Option InterfaceId :=
  if name.kind = .qualifiedName then do
    let (space, member) ← name.halves?
    p.memberInterface? file space member
  else p.simpleInterface? file name.firstName

/-- Every declaration of a structure, in the order of files and places. An interface with several
declarations occurs several times. -/
def structureDeclarations (p : Program) (suffix : String) : List InterfaceId :=
  ((allInterfaceDeclarations p.files).map (·.1)).filter fun id => endsWith id.name suffix

/-- The structures that an interface directly extends, each once. -/
def baseStructures (p : Program) (suffix : String) (id : InterfaceId) : List InterfaceId :=
  let bases := ((p.interface? id).map (·.bases)).getD []
  let resolved := bases.filterMap fun n =>
    (n.child? .expression).bind (p.resolveInterface? id.file)
  (resolved.filter fun base => endsWith base.name suffix).eraseDups

end Program
end FactorySync
