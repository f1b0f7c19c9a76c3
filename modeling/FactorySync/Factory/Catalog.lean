import FactorySync.Factory.Basic
import FactorySync.Program.Kinds

/-!
# The catalog

Which structures get a factory: those with a kind that the settings do not exclude, each once, in
the order of their first declarations.
-/

namespace FactorySync

/-- Records by interface, in the order in which they were added. -/
abbrev Catalog := List (InterfaceId × StructureRecord)

namespace Catalog

def has (c : Catalog) (id : InterfaceId) : Bool := c.any (·.1 == id)

/-- Adds a record, unless the interface has one. -/
def add (c : Catalog) (id : InterfaceId) (kind : String) : Catalog :=
  if c.has id then c else c ++ [(id, ⟨id.name, kind⟩)]

/-- What is done with the catalog after a structure was added to it. -/
abbrev Ancestors := InterfaceId → Catalog → Catalog

/-- Adds no ancestors. -/
def Ancestors.none : Ancestors := fun _ c => c

/-- Adds the structures that the structure directly extends, if they have a kind. -/
def Ancestors.bases (p : Program) (config : Config) : Ancestors := fun id c =>
  (p.baseStructures config.structureSuffix id).foldl (fun c base =>
    match p.kind? config.kindEnum base with
    | some kind => c.add base kind
    | .none => c) c

/-- Adds one structure and its ancestors, unless it is excluded, has no kind or is there already. -/
def visit (p : Program) (config : Config) (ancestors : Ancestors) (c : Catalog) (id : InterfaceId) :
    Catalog :=
  if !config.includesStructure id.name || c.has id then c
  else
    match p.kind? config.kindEnum id with
    | some kind => ancestors id (c.add id kind)
    | none => c

/-- The catalog of a program. -/
def ofProgram (p : Program) (config : Config) (ancestors : Ancestors := .none) : Catalog :=
  (p.structureDeclarations config.structureSuffix).foldl (visit p config ancestors) []

/-- The records of structures that are not excluded. Ancestors may have been added that are. -/
def records (c : Catalog) (config : Config) : List StructureRecord :=
  (c.map (·.2)).filter fun r => config.includesStructure r.name

end Catalog
end FactorySync
