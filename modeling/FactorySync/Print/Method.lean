import FactorySync.Print.Layout
import FactorySync.Text.CharClass
import FactorySync.Text.Lines

/-!
# Methods

A method as a member of an object literal, and how it is printed: a doc comment, the head, and each
statement of the body on a line of its own.
-/

namespace FactorySync

structure Parameter where
  name : String
  type : Option String := none
  deriving Repr, DecidableEq, Inhabited

structure Method where
  name : String
  docs : Option String := none
  parameters : List Parameter := []
  returnType : Option String := none
  statements : List String := []
  deriving Repr, DecidableEq, Inhabited

/-- Drops blanks and line breaks at both ends. -/
def trim (text : List Char) : List Char :=
  ((text.dropWhile CharClass.isSpace).reverse.dropWhile CharClass.isSpace).reverse

/-- `: type` after a name or a parameter list. -/
def typeSuffix (type : Option String) : List Char :=
  match type with
  | some type => ':' :: ' ' :: type.toList
  | none => []

def Parameter.text (p : Parameter) : List Char := p.name.toList ++ typeSuffix p.type

namespace Method

/-- A doc comment: on one line if its text is, else with each line of it on a line of its own. -/
def docText (docs : String) (l : Layout) (level : Nat) : List Char :=
  match lines docs.toList with
  | [] | [_] => l.line level ("/** ".toList ++ trim docs.toList ++ " */".toList)
  | many =>
    let middle (line : List Char) : List Char :=
      l.line level (if line.isEmpty then " *".toList else " * ".toList ++ line)
    l.line level "/**".toList ++ many.flatMap middle ++ l.line level " */".toList

/-- The name, the parameters and the return type. -/
def head (m : Method) : List Char :=
  m.name.toList ++ ['('] ++ [',', ' '].intercalate (m.parameters.map Parameter.text) ++ [')'] ++
    typeSuffix m.returnType

/-- The whole method up to its closing brace. What separates it from other members is not part of
it. -/
def text (m : Method) (l : Layout) (level : Nat) : List Char :=
  (match m.docs with
    | some docs => docText docs l level
    | none => []) ++
  l.line level (m.head ++ [' ', '\x7b']) ++
  m.statements.flatMap (fun s => l.line (level + 1) s.toList) ++
  l.indentation level ++ ['\x7d']

end Method

end FactorySync
