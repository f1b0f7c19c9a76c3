import FactorySync.Factory.Basic
import FactorySync.Literal.Clear

/-!
# Inserting

Adding factories after the last member of an object literal. They are indented like the first
member, or, in an empty literal, one level deeper than the line of its opening brace, and their
lines end as the lines of the file do.
-/

namespace FactorySync

/-- The text of the line that holds the offset `pos`, up to that offset. -/
def lineBefore (text : List Char) (pos : Nat) : List Char :=
  ((takeBytes pos text).reverse.takeWhile (· ≠ '\n')).reverse

/-- What stands between the start of the line and `pos`, if that is an indentation. -/
def indentationBefore? (text : List Char) (pos : Nat) : Option (List Char) :=
  let line := lineBefore text pos
  if line.all isTabOrSpace then some line else none

/-- The indentation of the line that holds the offset `pos`. -/
def lineIndentation (text : List Char) (pos : Nat) : List Char :=
  (lineBefore text pos ++ dropBytes pos text).takeWhile isTabOrSpace

/-- The offset after a `//` comment that ends the line at `pos`, so that the comment stays with what
it stands behind; `pos` itself if there is none. -/
def afterLineComment (text : List Char) (pos : Nat) : Nat :=
  let line := (dropBytes pos text).takeWhile fun c => c ≠ '\r' ∧ c ≠ '\n'
  if ['/', '/'].isPrefixOf (line.dropWhile isTabOrSpace) then pos + byteLength line else pos

/-- Indents all lines that are not empty. -/
def indentLines (newLine indent text : List Char) : List Char :=
  newLine.intercalate ((lines text).map fun line => if line.isEmpty then [] else indent ++ line)

/-- How the factories of a literal are laid out. -/
structure MemberLayout where
  /-- The indentation of the line with the opening brace. -/
  outer : List Char
  /-- The indentation of a member. -/
  member : List Char
  /-- The indentation that a level adds. -/
  unit : List Char
  newLine : List Char
  deriving Repr, DecidableEq

namespace MemberLayout

/-- The layout that a literal asks for; `fallback` is the indentation of a level where the literal
does not show one. -/
def ofLiteral (text fallback : List Char) (literal : Node) : MemberLayout :=
  let outer := lineIndentation text literal.span.start
  let first := (literal.child? .properties).bind (indentationBefore? text ·.span.start)
  let member := first.getD (outer ++ fallback)
  let added := if outer.isPrefixOf member then member.drop outer.length else []
  { outer, member
    unit := if added.isEmpty then fallback else added
    newLine := (newLineOf text).text }

/-- A factory on lines of its own, with the line break before it and the comma after it. -/
def factoryText (l : MemberLayout) (f : Factory) : List Char :=
  let layout : Layout := { indent := l.unit, newLine := l.newLine }
  l.newLine ++ indentLines l.newLine l.member (f.toMethod.text layout 0) ++ [',']

end MemberLayout

namespace Node

/-- The edits that insert `added` after the last member of a literal. -/
def insertionEdits (text : List Char) (l : MemberLayout) (added : List Char) (literal : Node) :
    Except Edit.Fault (List Edit) :=
  match literal.members.getLast? with
  | some last =>
    let comma := if last.separatorEnd.isNone then [Edit.insert last.fullStop [',']] else []
    .ok (comma ++ [.insert (afterLineComment text last.fullStop) added])
  | none =>
    let inside : Span := ⟨literal.openBraceEnd, literal.closeBraceStart⟩
    if inside.stop < inside.start then .error (.misplaced inside)
    else if (inside.slice text).contains '\n' then .ok [.insert inside.start added]
    else .ok [.replace inside (added ++ l.newLine ++ l.outer)]

/-- Adds factories to a literal, in the text that it was read from. -/
def insertFactories (text : List Char) (factories : List Factory) (fallback : String)
    (literal : Node) : Except Edit.Fault MemberChange := do
  let names := factories.map (·.name)
  if factories.isEmpty then return { text, names }
  let l := MemberLayout.ofLiteral text fallback.toList literal
  let edits ← literal.insertionEdits text l (factories.flatMap l.factoryText)
  return { text := ← Edit.applyAll text edits, names }

end Node
end FactorySync
