import FactorySync.Tree.Node

/-!
# Names in trees

What names a piece of a tree binds or mentions, and the piece itself without parentheses around it.
Each function follows the tree from a node to its children.
-/

namespace FactorySync
namespace Node

/-! ## Parentheses -/

mutual

/-- The expression or type inside any number of parentheses. -/
def inner (n : Node) : Node :=
  match n with
  | { kind, children, .. } =>
    if kind = .parenthesizedExpression ∨ kind = .parenthesizedType then
      (innerOfFirst children).getD n
    else n

def innerOfFirst : List Node → Option Node
  | [] => none
  | n :: _ => some n.inner

end

/-! ## Dotted names -/

mutual

/-- The first identifier of a dotted name. -/
def firstName : Node → String
  | { detail, children, .. } =>
    match detail with
    | .identifier name => name
    | _ => firstNameOf children

def firstNameOf : List Node → String
  | [] => ""
  | n :: _ => n.firstName

end

/-- The last identifier of a dotted name. -/
def lastName (n : Node) : String := (n.identifierName? <|> n.nameIn? .right).getD ""

/-- The two halves of a name with exactly one dot. -/
def halves? (n : Node) : Option (String × String) :=
  if n.kind = .qualifiedName then do
    return (← n.nameIn? .left, ← n.nameIn? .right)
  else none

/-! ## Binding names -/

mutual

/-- The identifiers that a name or pattern binds, in source order. -/
def boundNames : Node → List String
  | { kind, detail, children, .. } =>
    match detail, kind with
    | .identifier name, _ => [name]
    | _, .objectBindingPattern | _, .arrayBindingPattern => boundNamesIn .elements children
    | _, .bindingElement => boundNamesIn .name children
    | _, _ => []

/-- The identifiers bound by the nodes in a role. -/
def boundNamesIn (role : Role) : List Node → List String
  | [] => []
  | n :: ns => (if n.role = role then n.boundNames else []) ++ boundNamesIn role ns

end

mutual

/-- The type parameters that `infer` introduces anywhere in a tree. -/
def inferredNames : Node → List String
  | { kind, children, .. } =>
    let names := inferredNamesIn children
    if kind = .inferType then
      (children.filter (·.role = .typeParameter)).filterMap (·.nameIn? .name) ++ names
    else names

def inferredNamesIn : List Node → List String
  | [] => []
  | n :: ns => n.inferredNames ++ inferredNamesIn ns

end

end Node
end FactorySync
