import FactorySync.Tree.Names

/-!
# Declarations

Values and types live in two spaces: a constant and an interface of one name do not disturb each
other. `Node.declared` lists the names that a statement declares, each with its space.
-/

namespace FactorySync

/-- The space or spaces a name is declared in. -/
inductive Meaning where
  | value
  | type
  /-- Enums, classes and the like are values and types. -/
  | both
  deriving Repr, DecidableEq

namespace Meaning

def isValue : Meaning → Bool
  | .value | .both => true
  | .type => false

def isType : Meaning → Bool
  | .type | .both => true
  | .value => false

end Meaning

/-- A name and where it counts. -/
structure Declared where
  name : String
  meaning : Meaning
  deriving Repr, DecidableEq

namespace Node

/-- The name of the node, declared with a meaning. A node without a name declares nothing. -/
def declaredAs (n : Node) (meaning : Meaning) : List Declared :=
  (n.nameIn? .name).toList.map (⟨·, meaning⟩)

/-- What a statement declares, in source order. -/
def declared (n : Node) : List Declared :=
  match n.kind with
  | .interfaceDeclaration | .typeAliasDeclaration => n.declaredAs .type
  | .enumDeclaration | .unsupportedStatement => n.declaredAs .both
  | .functionDeclaration => n.declaredAs .value
  | .variableStatement =>
    let declarations := (n.childrenIn .declarationList).flatMap (·.childrenIn .declarations)
    let names := declarations.flatMap fun d => boundNamesIn .name d.children
    names.map (⟨·, .value⟩)
  | _ => []

/-- Whether a statement is marked `export`. -/
def isExported (n : Node) : Bool := n.modifiers.exported

end Node
end FactorySync
