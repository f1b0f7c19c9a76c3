import FactorySync.Reference.Scope

/-!
# Occurrences

The places of a file at which a name stands for something declared elsewhere. The walk through the
tree lists them in source order, each with the answer to the question whether a scope around it
binds the name. Names that are themselves declared, names of properties and names in imports are no
occurrences.
-/

namespace FactorySync

/-- What a name stands for at its place. -/
inductive Usage where
  /-- A value, in an expression. -/
  | value
  /-- A type. -/
  | type
  /-- A value whose type is meant, after `typeof`. -/
  | query
  /-- Whatever the name means, in a list of exports. -/
  | exported
  /-- Unknown: the name is mentioned in a statement that was passed over. -/
  | skipped
  deriving Repr, DecidableEq

structure Occurrence where
  usage : Usage
  /-- The name; of a dotted name the first part. -/
  name : String
  /-- The last part of a dotted name, else the name. -/
  last : String
  pos : Nat
  /-- Whether a scope around the place binds the name. -/
  isBound : Bool
  deriving Repr, DecidableEq

/-- Whether one of the scopes binds a name in the space that a usage is about. -/
def Usage.bound (u : Usage) (scopes : List Scope) (name : String) : Bool :=
  match u with
  | .value | .query => scopes.any (·.values.contains name)
  | .type => scopes.any (·.types.contains name)
  | .exported => scopes.any fun s => s.values.contains name || s.types.contains name
  | .skipped => false

namespace Node

/-- What an identifier stands for in a role under a node of some kind; `none` if it does not occur
there but is declared, or names a property or a label. -/
def usageAt (parent : Kind) : Role → Option Usage
  | .typeName => some .type
  | .exprName => some .query
  | .expression => some (if parent = .expressionWithTypeArguments then .type else .value)
  | .name => if parent = .shorthandPropertyAssignment then some .value else none
  | .propertyName | .label | .parameterName => none
  | _ => some .value

/-- A name in a usage. -/
def occurrence (scopes : List Scope) (usage : Usage) (n : Node) : Occurrence where
  usage
  name := n.firstName
  last := n.lastName
  pos := n.span.start
  isBound := usage.bound scopes n.firstName

/-- The names that an export declaration without a module exports. -/
def exportOccurrences (scopes : List Scope) (n : Node) : List Occurrence :=
  if (n.child? .moduleSpecifier).isSome then []
  else
    ((n.childrenIn .exportClause).filter (·.kind == .namedExports)).flatMap fun clause =>
      (clause.childrenIn .elements).map fun item =>
        let name := item.specifiedName?.getD ""
        ⟨.exported, name, name, item.span.start, Usage.exported.bound scopes name⟩

/-- The identifiers that a statement mentions that was passed over. -/
def skippedOccurrences (n : Node) : List Occurrence :=
  (n.childrenIn .identifiers).map (occurrence [] .skipped)

mutual

/-- The occurrences inside a node, given the scopes around it. -/
def occurrences (scopes : List Scope) (n : Node) : List Occurrence :=
  match n with
  | { kind, children, .. } =>
    match kind with
    | .importDeclaration => []
    | .exportDeclaration => n.exportOccurrences scopes
    | .unsupportedStatement => n.skippedOccurrences
    | _ => occurrencesIn kind (n.scope :: scopes) children

/-- The occurrences in the children of a node. -/
def occurrencesIn (parent : Kind) (scopes : List Scope) : List Node → List Occurrence
  | [] => []
  | n :: ns =>
    let here :=
      if n.kind = .identifier ∨ n.kind = .qualifiedName then
        (usageAt parent n.role).toList.map fun usage => n.occurrence scopes usage
      else n.occurrences scopes
    here ++ occurrencesIn parent scopes ns

end

end Node
end FactorySync
