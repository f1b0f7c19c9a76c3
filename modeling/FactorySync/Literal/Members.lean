import FactorySync.Text.Lines
import FactorySync.Tree.Node

/-!
# Members of object literals

The members of an object literal with the offsets at which they can be cut out of the text. Between
the braces a literal is tiled by its members: each begins where the brace or comma before it ends
(`Member.fullStart`) and reaches to the end of the comma after it, if there is one.
-/

namespace FactorySync

/-- One member of an object literal. -/
structure Member where
  index : Nat
  element : Node
  /-- The end of the brace or comma before the member. -/
  fullStart : Nat
  /-- The end of the comma after the member. -/
  separatorEnd : Option Nat

/-- Whether a character is a blank of an indentation. -/
def isTabOrSpace (c : Char) : Bool := c == ' ' || c == '\t'

namespace Member

/-- The static name; spreads and computed names have none. -/
def name? (m : Member) : Option String := m.element.memberName?

def isMethod (m : Member) : Bool := m.element.kind == .methodDeclaration

/-- Where the member ends, its comma included. -/
def fullStop (m : Member) : Nat := m.separatorEnd.getD m.element.span.stop

/-- The span that takes the member out of `text`. A member that stands on lines of its own goes with
those lines, so that a comment after the member before it stays; another one goes from `fullStart`
to its end. -/
def removalSpan (text : List Char) (m : Member) : Span :=
  let leading := sliceBytes m.fullStart m.element.span.start text
  let rest := dropBytes m.fullStop text
  let blanks := (rest.takeWhile isTabOrSpace).length
  let lineBreak := newLineLength (rest.drop blanks)
  if leading.contains '\n' && lineBreak != 0 then
    ⟨m.fullStart + byteLength (leading.takeWhile (· ≠ '\n')) + 1, m.fullStop + blanks + lineBreak⟩
  else ⟨m.fullStart, m.fullStop⟩

/-- The members that `elements` are, from one on that begins at `start`. The other list tells for
each element where the comma after it ends. -/
def ofElements (index start : Nat) : List Node → List (Option Nat) → List Member
  | [], _ => []
  | element :: elements, ends =>
    let m : Member := { index, element, fullStart := start, separatorEnd := ends.head?.join }
    m :: ofElements (index + 1) m.fullStop elements ends.tail

end Member

namespace Node

/-- Where the inside of an object literal begins. -/
def openBraceEnd (literal : Node) : Nat := literal.span.start + 1

/-- Where the inside of an object literal ends. -/
def closeBraceStart (literal : Node) : Nat := literal.span.stop - 1

/-- The members of an object literal in source order. -/
def members (literal : Node) : List Member :=
  let ends := match literal.detail with
    | .separators ends => ends
    | _ => []
  Member.ofElements 0 literal.openBraceEnd (literal.childrenIn .properties) ends

end Node
end FactorySync
