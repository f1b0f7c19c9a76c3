import FactorySync.Text.Bytes

/-!
# Lines and line breaks

A line ends at a line feed. `LineMap` turns byte offsets into line numbers and columns, both counted
from zero and kept in 32 bits; `lines` cuts a text into its lines; `newLineOf` picks the line break
to write into a file so that it stays uniform.
-/

namespace FactorySync

/-- A line break as it is written. -/
inductive NewLine where
  | lf
  | crlf
  deriving Repr, DecidableEq

def NewLine.text : NewLine → List Char
  | .lf => ['\n']
  | .crlf => ['\r', '\n']

/-- The line break that `text` uses, judged by its first one; a text on one line counts as `lf`. -/
def newLineOf : List Char → NewLine
  | [] => .lf
  | '\r' :: '\n' :: _ => .crlf
  | c :: cs => if c = '\n' then .lf else newLineOf cs

/-- The number of bytes of the line break that `text` begins with, 0 if it begins with none. -/
def newLineLength : List Char → Nat
  | '\r' :: '\n' :: _ => 2
  | '\n' :: _ => 1
  | _ => 0

/-- Drops a carriage return at the end. -/
def dropTrailingReturn (line : List Char) : List Char :=
  if line.getLast? = some '\r' then line.dropLast else line

/-- The lines of `text` without the breaks that end them; `\r\n` counts as one break. After a final
break no empty line follows. -/
def lines (text : List Char) : List (List Char) :=
  let pieces := text.splitOn '\n'
  let ended := pieces.dropLast.map dropTrailingReturn
  match pieces.getLast? with
  | some [] | none => ended
  | some last => ended ++ [last]

/-- Where each line of a text starts, in ascending order as long as the offsets fit. -/
structure LineMap where
  starts : List Nat
  deriving Repr, DecidableEq

/-- A line number and a byte offset into that line, both counted from zero. -/
structure LineColumn where
  line : Nat
  column : Nat
  deriving Repr, DecidableEq

namespace LineMap

/-- The offsets just after the line feeds of a text that itself begins at offset `pos`. -/
def startsAfterBreaks (pos : Nat) : List Char → List Nat
  | [] => []
  | c :: cs =>
    let next := pos + c.utf8Size
    if c = '\n' then next :: startsAfterBreaks next cs else startsAfterBreaks next cs

/-- The line table of a text. A start that does not fit wraps around. -/
def ofText (text : List Char) : LineMap := ⟨0 :: (startsAfterBreaks 0 text).map stored⟩

def lineCount (m : LineMap) : Nat := m.starts.length

/-- What a search for an offset finds among the starts: the line that starts there, or the line in
front of which a line that starts there would have to be put in. -/
inductive Slot where
  | hit (line : Nat)
  | gap (line : Nat)
  deriving Repr, DecidableEq

/-- Halves a stretch of `size` starts, from the one of the line `first` on, as long as it has more
than one. Of the two halves the later one is kept if it begins at or before `pos`. -/
def narrow (starts : List Nat) (pos first size : Nat) : Nat :=
  if 1 < size then
    let half := size / 2
    if starts.getD (first + half) 0 ≤ pos then narrow starts pos (first + half) (size - half)
    else narrow starts pos first (size - half)
  else first
termination_by size

/-- Looks for the offset `pos` among the starts, which are in ascending order. -/
def search (m : LineMap) (pos : Nat) : Slot :=
  let line := narrow m.starts pos 0 m.starts.length
  match m.starts[line]? with
  | none => .gap line
  | some start =>
    if start = pos then .hit line
    else if start < pos then .gap (line + 1)
    else .gap line

/-- The line that holds the offset `pos`: the last one that starts at or before it. -/
def lineOf (m : LineMap) (pos : Nat) : Nat :=
  match m.search pos with
  | .hit line => stored line
  | .gap next => stored (next - 1)

/-- The offset at which a line starts. -/
def lineStart (m : LineMap) (line : Nat) : Nat := m.starts.getD line 0

def locate (m : LineMap) (pos : Nat) : LineColumn :=
  let line := m.lineOf pos
  ⟨line, pos - m.lineStart line⟩

end LineMap

end FactorySync
