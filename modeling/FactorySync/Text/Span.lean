import FactorySync.Text.Bytes

/-!
# Spans

A `Span` is a half-open interval of byte offsets. Syntax nodes, tokens, diagnostics and edits all
name their place in a file by one. The file has fewer than `offsetCount` bytes, so that its offsets
are natural numbers as they are.
-/

namespace FactorySync

/-- The byte offsets from `start` up to, but not including, `stop`. -/
structure Span where
  start : Nat
  stop : Nat
  deriving Repr, DecidableEq, Inhabited

namespace Span

/-- The span of `length` bytes from `start`. -/
def ofLength (start length : Nat) : Span := ⟨start, start + length⟩

/-- The empty span at `pos`. -/
def empty (pos : Nat) : Span := ⟨pos, pos⟩

def length (s : Span) : Nat := s.stop - s.start

def isEmpty (s : Span) : Bool := s.start == s.stop

/-- Whether the byte at `pos` belongs to the span. -/
def contains (s : Span) (pos : Nat) : Bool := s.start ≤ pos && pos < s.stop

/-- Interval notation, `[5, 15)`. -/
def toInterval (s : Span) : String := s!"[{s.start}, {s.stop})"

/-- Two-dot notation, `5..15`. -/
def toDots (s : Span) : String := s!"{s.start}..{s.stop}"

/-- The characters of `text` that the span covers. -/
def slice (s : Span) (text : List Char) : List Char := sliceBytes s.start s.stop text

/-- Earlier start first; of two spans with one start, earlier end first. -/
def before (a b : Span) : Bool := a.start < b.start || (a.start == b.start && a.stop ≤ b.stop)

end Span

end FactorySync
