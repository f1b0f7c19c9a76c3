import FactorySync.Program.Basic

/-!
# The target object

Finding the file, the exported constant and the object literal that the factories belong to.
-/

namespace FactorySync

/-- What the value of a constant has to be. -/
inductive Shape where
  /-- A bare object literal. -/
  | object
  /-- An object literal with a type assertion, written with `as` or in front in angle brackets. -/
  | asserted
  deriving Repr, DecidableEq

def Shape.text : Shape → String
  | .object => "ObjectLiteralExpression"
  | .asserted => "AsExpression(ObjectLiteralExpression)"

/-- Why something is not found. -/
inductive LookupProblem where
  | noFile (name : String)
  | noConstant (name : String)
  /-- The value of the constant is not of the expected shape but something else. -/
  | shapeMismatch (name : String) (expected : Shape) (actual : String)
  deriving Repr, DecidableEq

def LookupProblem.message : LookupProblem → String
  | .noFile name => s!"could not find file '{name}'"
  | .noConstant name => s!"could not find exported const '{name}'"
  | .shapeMismatch name expected actual =>
    s!"expected '{name}' to be {expected.text}, but it is {actual}"

namespace Node

/-- The declarations of the constants that an exported statement declares. -/
def exportedConstants (n : Node) : List Node :=
  if n.kind = .variableStatement ∧ n.isExported then
    ((n.childrenIn .declarationList).filter (·.flags.isConst)).flatMap (·.childrenIn .declarations)
  else []

/-- What a type assertion asserts the type of. -/
def asserted? (n : Node) : Option Node :=
  match n.kind with
  | .asExpression | .typeAssertionExpression => (n.child? .expression).map inner
  | _ => none

/-- The object literal that is the value of a declared constant. Parentheses do not matter. -/
def literal (declaration : Node) (expected : Shape) : Except LookupProblem Node :=
  let mismatch (actual : String) : Except LookupProblem Node :=
    .error (.shapeMismatch ((declaration.nameIn? .name).getD "") expected actual)
  match (declaration.child? .initializer).map inner with
  | none => mismatch "no initializer"
  | some value =>
    match expected, value.asserted? with
    | .asserted, none => mismatch value.kind.display
    | .asserted, some inside =>
      if inside.kind = .objectLiteralExpression then .ok inside else mismatch inside.kind.display
    | .object, _ =>
      if value.kind = .objectLiteralExpression then .ok value else mismatch value.kind.display

end Node

namespace Program

/-- The file with the path `name`, or else the first one whose path ends with it. -/
def findFile (p : Program) (name : String) : Except LookupProblem FileId :=
  match p.position? (Path.normalize name) with
  | some id => .ok id
  | none =>
    match p.files.findIdx? (Path.endsWithName ·.path name) with
    | some id => .ok id
    | none => .error (.noFile name)

/-- The declaration of an exported constant. -/
def findConstant (p : Program) (file : FileId) (name : String) : Except LookupProblem Node :=
  let constants := (p.statements file).flatMap (·.exportedConstants)
  match constants.find? (·.nameIn? .name == some name) with
  | some declaration => .ok declaration
  | none => .error (.noConstant name)

/-- The literal that is the value of an exported constant. -/
def findLiteral (p : Program) (file : FileId) (name : String) (expected : Shape) :
    Except LookupProblem Node := do
  (← p.findConstant file name).literal expected

end Program
end FactorySync
