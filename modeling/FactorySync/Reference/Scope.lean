import FactorySync.Program.Declared

/-!
# Scopes

The names that a node binds for what lies inside it, values and types apart. `Node.scope` gives the
scope of any node; most nodes bind nothing.
-/

namespace FactorySync

structure Scope where
  values : List String := []
  types : List String := []
  deriving Repr, DecidableEq, Inhabited

namespace Scope

/-- Binds what statements declare. -/
def ofDeclared (ds : List Declared) : Scope where
  values := (ds.filter (·.meaning.isValue)).map (·.name)
  types := (ds.filter (·.meaning.isType)).map (·.name)

def ofStatements (statements : List Node) : Scope := ofDeclared (statements.flatMap Node.declared)

def ofTypes (types : List String) : Scope := { types }

end Scope

namespace Node

/-- The names of the type parameters that a node declares. -/
def typeParameterNames (n : Node) : List String :=
  (n.childrenIn .typeParameters).filterMap (·.nameIn? .name)

/-- The names that the parameters of a node bind. -/
def parameterNames (n : Node) : List String :=
  (n.childrenIn .parameters).flatMap fun parameter => boundNamesIn .name parameter.children

/-- What the parameters and type parameters of a node bind. -/
def signatureScope (n : Node) : Scope :=
  { values := n.parameterNames, types := n.typeParameterNames }

/-- What a node binds for everything inside it. -/
def scope (n : Node) : Scope :=
  match n.kind with
  | .block => .ofStatements (n.childrenIn .statements)
  | .functionDeclaration | .arrowFunction | .methodDeclaration | .getAccessor | .setAccessor
  | .functionType | .constructorType | .methodSignature | .callSignature | .constructSignature =>
    n.signatureScope
  | .functionExpression =>
    let s := n.signatureScope
    { s with values := (n.nameIn? .name).toList ++ s.values }
  | .interfaceDeclaration | .typeAliasDeclaration => .ofTypes n.typeParameterNames
  | .mappedType => .ofTypes ((n.childrenIn .typeParameter).filterMap (·.nameIn? .name))
  | .conditionalType => .ofTypes ((n.childrenIn .extendsType).flatMap inferredNames)
  | _ => {}

end Node
end FactorySync
