import FactorySync.Text.Lines
import FactorySync.Text.Replace
import FactorySync.Text.Span

/-!
# Diagnostics

Scanning and parsing never fail: they note what is wrong and go on. A `Problem` is the cause, a
`Diagnostic` the note made of it: code, category, text and, where known, the place. A file counts as
broken when one of its diagnostics is an error; warnings only tell that something was skipped.
-/

namespace FactorySync

inductive Category where
  | warning
  | error
  | message
  deriving Repr, DecidableEq

def Category.text : Category → String
  | .warning => "warning"
  | .error => "error"
  | .message => "message"

/-- A numbered message. The marks `\x7b0\x7d`, `\x7b1\x7d`, … in its text stand for arguments. -/
structure Template where
  code : Nat
  category : Category
  text : String
  deriving Repr, DecidableEq

/-- The mark that stands for the argument number `i`. -/
def Template.mark (i : Nat) : List Char := ['\x7b'] ++ (Nat.toDigits 10 i) ++ ['\x7d']

/-- Puts the arguments in the places of their marks, one argument after the other. -/
def Template.fill (text : List Char) (args : List String) : List Char :=
  (args.zipIdx).foldl (fun t arg => replaceAll (mark arg.2) arg.1.toList t) text

/-- What can be wrong with a source text. -/
inductive Problem where
  | unterminatedString
  | unterminatedComment
  | invalidCharacter
  | unterminatedTemplate
  | unterminatedRegularExpression
  | identifierExpected
  /-- The token with this text was due. -/
  | expected (text : String)
  | unexpectedToken
  | expressionExpected
  | typeExpected
  | statementExpected
  | propertyExpected
  | stringExpected
  | nestedTooDeeply
  /-- A declaration that opens with this keyword was passed over. -/
  | unsupported (keyword : String)
  deriving Repr, DecidableEq

def Problem.template : Problem → Template
  | .unterminatedString => ⟨1002, .error, "Unterminated string literal."⟩
  | .unterminatedComment => ⟨1010, .error, "'*/' expected."⟩
  | .invalidCharacter => ⟨1127, .error, "Invalid character."⟩
  | .unterminatedTemplate => ⟨1160, .error, "Unterminated template literal."⟩
  | .unterminatedRegularExpression => ⟨1161, .error, "Unterminated regular expression literal."⟩
  | .identifierExpected => ⟨1003, .error, "Identifier expected."⟩
  | .expected _ => ⟨1005, .error, "'\x7b0\x7d' expected."⟩
  | .unexpectedToken => ⟨1012, .error, "Unexpected token."⟩
  | .expressionExpected => ⟨1109, .error, "Expression expected."⟩
  | .typeExpected => ⟨1110, .error, "Type expected."⟩
  | .statementExpected => ⟨1128, .error, "Declaration or statement expected."⟩
  | .propertyExpected => ⟨1136, .error, "Property assignment expected."⟩
  | .stringExpected => ⟨1141, .error, "String literal expected."⟩
  | .nestedTooDeeply => ⟨1200, .error, "Maximum nesting depth exceeded."⟩
  | .unsupported _ =>
    ⟨9001, .warning, "'\x7b0\x7d' declarations are not supported and were skipped."⟩

theorem Problem.identifierExpected_isError :
    identifierExpected.template.category = .error := rfl

theorem Problem.expected_isError (text : String) : (expected text).template.category = .error := rfl

theorem Problem.statementExpected_isError : statementExpected.template.category = .error := rfl

theorem Problem.unexpectedToken_isError : unexpectedToken.template.category = .error := rfl

def Problem.args : Problem → List String
  | .expected text => [text]
  | .unsupported keyword => [keyword]
  | _ => []

structure Diagnostic where
  file : Option String
  span : Option Span
  text : String
  code : Nat
  category : Category
  deriving Repr, DecidableEq

namespace Diagnostic

/-- A diagnostic without a place. -/
def ofTemplate (t : Template) (args : List String) : Diagnostic :=
  ⟨none, none, String.ofList (Template.fill t.text.toList args), t.code, t.category⟩

def locatedAt (file : String) (span : Span) (d : Diagnostic) : Diagnostic :=
  { d with file := some file, span := some span }

/-- The diagnostic of a problem found in `file` at `span`. -/
def ofProblem (file : String) (span : Span) (p : Problem) : Diagnostic :=
  (ofTemplate p.template p.args).locatedAt file span

def isError (d : Diagnostic) : Bool := d.category == .error

/-- Category, code and text, as in `error TS1005: ';' expected.`. -/
def body (d : Diagnostic) : String := s!"{d.category.text} TS{d.code}: {d.text}"

/-- One line that names the place by file and byte offset. -/
def toLine (d : Diagnostic) : String :=
  match d.file, d.span with
  | some file, some span => s!"{file}({span.start}): {d.body}"
  | some file, none => s!"{file}: {d.body}"
  | none, _ => d.body

/-- One line that names the place by file, line and column, counted from one. -/
def render (m : LineMap) (d : Diagnostic) : String :=
  match d.file, d.span with
  | some file, some span =>
    let place := m.locate span.start
    s!"{file}:{place.line + 1}:{place.column + 1}: {d.body}"
  | _, _ => d.toLine

/-- The order by file and start: what has no file comes first, what has no place counts as being at
the start of its file. -/
def before (a b : Diagnostic) : Bool :=
  let start (d : Diagnostic) : Nat := (d.span.map (·.start)).getD 0
  match a.file, b.file with
  | none, some _ => true
  | some _, none => false
  | none, none => start a ≤ start b
  | some f, some g => if f = g then start a ≤ start b else f < g

end Diagnostic

/-- The notes on one or more files, in the order they were made. -/
abbrev Diagnostics := List Diagnostic

namespace Diagnostics

def hasErrors (ds : Diagnostics) : Bool := ds.any Diagnostic.isError

def errorCount (ds : Diagnostics) : Nat := ds.countP Diagnostic.isError

/-- Sorts by file and place; notes on one place keep their order. -/
def sort (ds : Diagnostics) : Diagnostics := ds.mergeSort Diagnostic.before

/-- Every note on its own line, with line numbers taken from the text they are about. -/
def render (text : List Char) (ds : Diagnostics) : List String :=
  ds.map (Diagnostic.render (.ofText text))

end Diagnostics

end FactorySync
