import FactorySync.Import.Basic
import FactorySync.Parse.File
import FactorySync.Program.Declared

/-!
# Modules

What other modules can see of a file, and what it sees of them: its declarations, its imports and
the exports it passes on.
-/

namespace FactorySync

/-- An `export` of names declared elsewhere. -/
inductive Reexport where
  /-- `export \x7b first as second \x7d`, of this module or, with a specifier, of another one. Each
  item is the name it is exported as and the name it has there. -/
  | named (items : List (String × String)) (specifier : Option String)
  /-- `export *` of another module. -/
  | all (specifier : String)
  deriving Repr, DecidableEq

/-- A file as other files see it. -/
structure Module where
  path : String
  /-- What the statements declare, and whether the statement is exported. -/
  declarations : List (Declared × Bool)
  imports : List Import
  reexports : List Reexport
  deriving Repr, DecidableEq

namespace Reexport

/-- The text of the specifier of an import or export. -/
def specifierOf? (n : Node) : Option String := (n.child? .moduleSpecifier).bind Node.propertyText?

def itemOf (n : Node) : String × String :=
  ((n.nameIn? .name).getD "", n.specifiedName?.getD "")

/-- What an export declaration passes on. `export * as name` passes on no name that could be
declared. -/
def ofNode? (n : Node) : Option Reexport :=
  if n.kind = .exportDeclaration then
    match n.child? .exportClause, specifierOf? n with
    | none, some specifier => some (.all specifier)
    | some clause, specifier =>
      if clause.kind = .namedExports then
        some (.named ((clause.childrenIn .elements).map itemOf) specifier)
      else none
    | none, none => none
  else none

/-- The names that an export of names takes them from. -/
def mentions : Reexport → List String
  | .named items _ => items.map (·.2)
  | .all _ => []

end Reexport

namespace Module

def ofFile (f : SourceFile) : Module where
  path := f.path
  declarations := f.statements.flatMap fun n => n.declared.map fun d => (d, n.isExported)
  imports := f.imports.map Import.ofNode
  reexports := f.statements.filterMap Reexport.ofNode?

/-- Whether a statement of the module declares the name. -/
def declares (m : Module) (name : String) : Bool := m.declarations.any (·.1.name == name)

/-- Whether an exported statement of the module declares the name. -/
def exportsOwn (m : Module) (name : String) : Bool :=
  m.declarations.any fun d => d.1.name == name && d.2

/-- The first import in braces that binds the name: the specifier, and the name exported there. -/
def namedImport? (m : Module) (name : String) : Option (String × String) :=
  m.imports.findSome? fun i =>
    (i.items.find? (·.localName == name)).map fun item => (i.specifier, item.exported)

/-- The specifiers of the namespace imports that bind the name. -/
def namespaceImports (m : Module) (name : String) : List String :=
  (m.imports.filter (·.namespaceName == some name)).map (·.specifier)

/-- The names that imports and exports of the module mention, as other modules know them. -/
def mentions (m : Module) : List String :=
  m.imports.flatMap (·.items.map (·.exported)) ++ m.reexports.flatMap Reexport.mentions

end Module
end FactorySync
