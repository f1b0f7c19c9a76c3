import FactorySync.Token.Basic

/-!
# Syntax trees

A tree is uniform: every `Node` has a kind, the span from its first token to its last, the role it
plays in its parent, the data proper to its kind (`Detail`) and its children in source order. What a
kind means, and which children it has, is known to the modules that read it.
-/

namespace FactorySync

/-- The part a node plays in its parent. -/
inductive Role where
  | file | statements | name | propertyName | initializer | elements | left | right | expression
  | typeParameters | parameters | returnType | declaredType | typeName | typeArguments | exprName
  | members | elementType | typeNode | types | checkType | extendsType | trueType | falseType
  | typeParameter | objectType | indexType | nameType | literal | parameterName | templateSpans
  | properties | argumentExpression | arguments | body | operand | condition | whenTrue | whenFalse
  | thenStatement | elseStatement | clauses | label | identifiers | declarationList | declarations
  | heritageClauses | importClause | moduleSpecifier | namedBindings | exportClause | constraint
  | fallback
  deriving Repr, DecidableEq, Inhabited

namespace Role

/-- The role in words. -/
def text : Role → String
  | .file => "file" | .statements => "statements" | .name => "name"
  | .propertyName => "property name" | .initializer => "initializer" | .elements => "elements"
  | .left => "left" | .right => "right" | .expression => "expression"
  | .typeParameters => "type parameters" | .parameters => "parameters"
  | .returnType => "return type" | .declaredType => "type annotation"
  | .typeName => "type name" | .typeArguments => "type arguments" | .exprName => "expr name"
  | .members => "members" | .elementType => "element type" | .typeNode => "type node"
  | .types => "types" | .checkType => "check type" | .extendsType => "extends type"
  | .trueType => "true type" | .falseType => "false type" | .typeParameter => "type parameter"
  | .objectType => "object type" | .indexType => "index type" | .nameType => "name type"
  | .literal => "literal" | .parameterName => "parameter name"
  | .templateSpans => "template spans" | .properties => "properties"
  | .argumentExpression => "argument expression" | .arguments => "arguments" | .body => "body"
  | .operand => "operand" | .condition => "condition" | .whenTrue => "when true"
  | .whenFalse => "when false" | .thenStatement => "then statement"
  | .elseStatement => "else statement" | .clauses => "clauses" | .label => "label"
  | .identifiers => "identifiers" | .declarationList => "declaration list"
  | .declarations => "declarations" | .heritageClauses => "heritage clauses"
  | .importClause => "import clause" | .moduleSpecifier => "module specifier"
  | .namedBindings => "named bindings" | .exportClause => "export clause"
  | .constraint => "constraint" | .fallback => "default"

end Role

/-- A token that a node keeps beside its children. -/
inductive MarkRole where
  | dotDotDot | question | questionDot | asterisk | operator | exclamation | readonly | asserts
  deriving Repr, DecidableEq

/-- A kept token with its kind, which may differ from what its role suggests (`-readonly`). -/
structure Mark where
  role : MarkRole
  kind : Kind
  span : Span
  deriving Repr, DecidableEq

structure NodeFlags where
  /-- Declared by `let`. -/
  isLet : Bool := false
  /-- Declared by `const`. -/
  isConst : Bool := false
  /-- Reached through `?.`. -/
  optionalChain : Bool := false
  /-- The source text holds a line feed. -/
  multiLine : Bool := false
  /-- Put in where the source has nothing. -/
  missing : Bool := false
  deriving Repr, DecidableEq, Inhabited

/-- The data proper to a kind of node. -/
inductive Detail where
  | none
  /-- The name of a source file. -/
  | file (path : String)
  | identifier (name : String)
  | string (value : String) (singleQuoted : Bool)
  /-- A literal as written, or the value of a template without substitutions. -/
  | literal (text : String)
  /-- The value of a template in front of its first substitution. -/
  | templateHead (text : String)
  /-- The value of a template after a substitution. -/
  | templateSpan (text : String)
  /-- The operator of a unary expression or type. -/
  | operator (kind : Kind)
  /-- For each member the offset after the comma that follows it. -/
  | separators (ends : List (Option Nat))
  /-- The keyword of a statement that was passed over. -/
  | keyword (kind : Kind)
  /-- `extends` or `implements`. -/
  | heritage (kind : Kind)
  /-- Whether an import or export concerns types only. -/
  | typeOnly (isTypeOnly : Bool)
  /-- Whether an exported expression is written with `=` and not with `default`. -/
  | exportEquals (isEquals : Bool)
  deriving Repr, DecidableEq, Inhabited

structure Node where
  role : Role := .statements
  kind : Kind
  span : Span
  flags : NodeFlags := {}
  modifiers : Modifiers := {}
  detail : Detail := .none
  marks : List Mark := []
  /-- The optional lists that are present, even if they are empty. -/
  lists : List Role := []
  children : List Node := []
  deriving Repr, Inhabited

namespace Node

/-- The node in another role. -/
def inRole (role : Role) (n : Node) : Node := { n with role }

/-- The children in a role, in source order. -/
def childrenIn (n : Node) (role : Role) : List Node := n.children.filter (·.role == role)

/-- The first child in a role. -/
def child? (n : Node) (role : Role) : Option Node := n.children.find? (·.role == role)

/-- Whether an optional list is present. -/
def hasList (n : Node) (role : Role) : Bool := n.lists.contains role

/-- The name of an identifier. -/
def identifierName? (n : Node) : Option String :=
  match n.detail with
  | .identifier name => some name
  | _ => none

/-- The name that an identifier, string or number gives a property. Computed names have none. -/
def propertyText? (n : Node) : Option String :=
  match n.detail with
  | .identifier name => some name
  | .string value _ => some value
  | .literal text => some text
  | _ => none

/-- The static name of a member of an interface or object literal. -/
def memberName? (n : Node) : Option String :=
  match n.kind with
  | .propertySignature | .methodSignature | .propertyAssignment | .shorthandPropertyAssignment
  | .methodDeclaration | .getAccessor | .setAccessor => (n.child? .name).bind propertyText?
  | _ => none

/-- The name of the child in a role, if it is an identifier. -/
def nameIn? (n : Node) (role : Role) : Option String := (n.child? role).bind identifierName?

/-- The name before `as` in an import or export specifier, or else the only one. -/
def specifiedName? (n : Node) : Option String := n.nameIn? .propertyName <|> n.nameIn? .name

/-- Whether the kind concerns types only, where it has that distinction. -/
def isTypeOnly (n : Node) : Bool := n.detail == .typeOnly true

end Node

end FactorySync
