/-!
# Quoted strings

The source form of a string: a quote mark on each side, and a backslash in front of every quote mark
of that kind and of every backslash inside.
-/

namespace FactorySync

/-- The quote marks a string can be written with. -/
inductive QuoteMark where
  | double
  | single
  deriving Repr, DecidableEq, Inhabited

namespace QuoteMark

def char : QuoteMark → Char
  | .double => '"'
  | .single => '\''

/-- The characters between the quote marks. -/
def escaped (q : QuoteMark) : List Char → List Char
  | [] => []
  | c :: cs => if c = q.char ∨ c = '\\' then '\\' :: c :: q.escaped cs else c :: q.escaped cs

/-- A string in quote marks. -/
def quoted (q : QuoteMark) (value : List Char) : List Char :=
  q.char :: q.escaped value ++ [q.char]

end QuoteMark

end FactorySync
