import FactorySync.Text.CharClass

/-!
# Trivia

What stands between tokens and has no meaning: blanks, line breaks, comments and, at the very start
of a file, a `#!` line.
-/

namespace FactorySync

/-- The trivia at the front of a text. -/
structure Trivia where
  /-- The number of characters. -/
  size : Nat := 0
  /-- Whether a line break is among them, inside a block comment or outside. -/
  lineBreak : Bool := false
  /-- The number of characters of a block comment that is never closed. Such a comment reaches to
  the end of the text, so it is the last thing in the trivia. -/
  unclosed : Option Nat := none
  deriving Repr, DecidableEq

namespace Trivia

/-- Trivia with `n` more characters in front. -/
def after (n : Nat) (t : Trivia) : Trivia := { t with size := t.size + n }

/-- Trivia with one more character in front, which may be a line break. -/
def afterChar (c : Char) (t : Trivia) : Trivia :=
  { t with size := t.size + 1, lineBreak := t.lineBreak || CharClass.isLineBreak c }

/-- Where reading stands: between comments, in a line comment, or in a block comment of which
`length` characters have been read. -/
inductive Mode where
  | between
  | inLine
  | inBlock (length : Nat)
  deriving Repr, DecidableEq

/-- Reads trivia until the first character that is none. -/
def read : Mode → List Char → Trivia
  | .between, '/' :: '/' :: cs => (read .inLine cs).after 2
  | .between, '/' :: '*' :: cs => (read (.inBlock 2) cs).after 2
  | .between, c :: cs =>
    if CharClass.isLineBreak c || CharClass.isBlank c then (read .between cs).afterChar c else {}
  | .inLine, c :: cs =>
    (read (if CharClass.isLineBreak c then .between else .inLine) cs).afterChar c
  | .inBlock _, '*' :: '/' :: cs => (read .between cs).after 2
  | .inBlock length, c :: cs => (read (.inBlock (length + 1)) cs).afterChar c
  | .inBlock length, [] => { unclosed := some length }
  | _, [] => {}

/-- The trivia at the front of `cs`, which is the whole file if `fileStart` holds. -/
def ofChars (fileStart : Bool) : List Char → Trivia
  | '#' :: '!' :: cs => if fileStart then (read .inLine cs).after 2 else {}
  | cs => read .between cs

end Trivia

end FactorySync
