import FactorySync.Parse.Statements

/-!
# Files

Here the knot of the grammar is tied and whole files are read.
-/

namespace FactorySync

namespace Parser

/-- The production of each goal. -/
def produce : Goal → Parser Node
  | .statement => statement
  | .assignment => deeper assignment
  | .binary strength => binary strength
  | .unary => unary
  | .construction => construction
  | .type => typeAt false
  | .boundType => typeAt true
  | .typeOperand => typeOperand
  | .bindingName => bindingName

/-- Reads goals nested at most `n` deep. -/
def knot : Nat → Knot
  | 0, _, _ => none
  | n + 1, goal, s => (produce goal).run (knot n) s

theorem knot_leads (n : Nat) : (knot n).Leads := by
  induction n with
  | zero => exact nofun
  | succ n ih => exact fun h => (produce _).leads ih h

/-- How deep goals can be nested in a file of `size` characters: between two tokens no more than
these goals stand within one another without one of them consuming a token. -/
def allowance (size : Nat) : Nat := 8 * (size + 2)

/-- The statements of a file. A closing brace that nothing opened is noted and passed over. -/
def fileStatements : Parser (List Node) := do
  advance
  loop (fun found => do
    let more ← statements Kind.endsBlock
    let found := found ++ more
    if (← kind) = .closeBrace then
      note .statementExpected Problem.statementExpected_isError
      advance
      return .inl found
    else return .inr found) []

end Parser

/-- A file as it was read: its tree and what was noted about it, by place. -/
structure SourceFile where
  path : String
  text : List Char
  tree : Node
  notes : Diagnostics

namespace SourceFile

/-- Reads a file, unless an allowance is used up. -/
def parse? (path : String) (text : List Char) : Option SourceFile :=
  let start : Parse.State := { scanner := .ofText path text, size := text.length }
  (Parser.fileStatements.run (Parser.knot (Parser.allowance text.length)) start).map fun r =>
    { path
      text
      tree :=
        { role := .file
          kind := .sourceFile
          span := ⟨0, byteLength text⟩
          detail := .file path
          children := r.1 }
      notes := Diagnostics.sort (r.2.notes.reverse ++ r.2.scanner.diagnostics) }

/-- A file of which nothing could be read. -/
def unread (path : String) (text : List Char) : SourceFile where
  path
  text
  tree := { role := .file, kind := .sourceFile, span := ⟨0, byteLength text⟩, detail := .file path }
  notes := [.ofProblem path (.empty 0) .nestedTooDeeply]

/-- Reads a file. -/
def parse (path : String) (text : List Char) : SourceFile :=
  (parse? path text).getD (unread path text)

def statements (f : SourceFile) : List Node := f.tree.children

def hasErrors (f : SourceFile) : Bool := f.notes.hasErrors

/-- The notes on the file, one on a line. -/
def renderNotes (f : SourceFile) : List String := f.notes.render f.text

/-- The import declarations in source order. -/
def imports (f : SourceFile) : List Node :=
  f.statements.filter (·.kind == .importDeclaration)

end SourceFile

end FactorySync
