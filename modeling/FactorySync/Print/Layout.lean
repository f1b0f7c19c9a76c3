import FactorySync.Text.Quoted

/-!
# Layout

How printed pieces of code are laid out, and a `Writer` that puts pieces together. A piece is
printed by a function of the layout and the level of its indentation; the writer only keeps the two
and what was written so far.
-/

namespace FactorySync

structure Layout where
  /-- The indentation of one level. -/
  indent : List Char := [' ', ' ', ' ', ' ']
  newLine : List Char := ['\n']
  quote : QuoteMark := .double
  deriving Repr, DecidableEq, Inhabited

namespace Layout

/-- The indentation of a line. -/
def indentation (l : Layout) (level : Nat) : List Char := (List.replicate level l.indent).flatten

/-- A whole line with its line break. -/
def line (l : Layout) (level : Nat) (text : List Char) : List Char :=
  l.indentation level ++ text ++ l.newLine

end Layout

structure Writer where
  layout : Layout := {}
  level : Nat := 0
  output : List Char := []
  deriving Repr, DecidableEq, Inhabited

namespace Writer

def isEmpty (w : Writer) : Bool := w.output.isEmpty

def write (text : List Char) (w : Writer) : Writer := { w with output := w.output ++ text }

/-- Writes a piece that is laid out at the current level. -/
def print (piece : Layout → Nat → List Char) (w : Writer) : Writer :=
  w.write (piece w.layout w.level)

def line (text : List Char) (w : Writer) : Writer := w.print (·.line · text)

def newLine (w : Writer) : Writer := w.write w.layout.newLine

def indentation (w : Writer) : Writer := w.print Layout.indentation

def quoted (value : List Char) (w : Writer) : Writer := w.write (w.layout.quote.quoted value)

def atLevel (level : Nat) (w : Writer) : Writer := { w with level }

def deeper (w : Writer) : Writer := w.atLevel (w.level + 1)

/-- Goes one level out, but not further than to no indentation at all. -/
def shallower (w : Writer) : Writer := w.atLevel (w.level - 1)

end Writer

end FactorySync
