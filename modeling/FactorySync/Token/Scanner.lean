import FactorySync.Token.Lexeme
import FactorySync.Token.Trivia

/-!
# The scanner

A `Scanner` stands on one token of a file and holds the text after it. `next` moves on to the next
token. Three tokens can be read again in another way once the grammar says what is due: `>` as a
longer operator, `/` as a regular expression, and `\x7d` as the rest of a template.

A scanner is a value: to look ahead, scan on with a copy. `backTo` returns to an earlier copy and
forgets the diagnostics noted since.
-/

namespace FactorySync

/-- The ways in which a token can be read again. -/
inductive Rescan where
  | greaterThan
  | slash
  | template
  deriving Repr, DecidableEq

structure Scanner where
  file : String
  /-- The text after the current token. -/
  rest : List Char
  /-- The current token. -/
  token : Token := { kind := .unknown, start := 0, source := [], value := "", flags := {} }
  diagnostics : Diagnostics := []

namespace Scanner

/-- A scanner in front of the first token. -/
def ofText (file : String) (text : List Char) : Scanner := { file, rest := text }

/-- Notes a problem at a span, if there is one. -/
def note (span : Span) (problem : Option Problem) (s : Scanner) : Scanner :=
  match problem with
  | none => s
  | some p => { s with diagnostics := s.diagnostics ++ [.ofProblem s.file span p] }

/-- Takes a lexeme from the front of `text`, which begins at the byte offset `start`. -/
def take (start : Nat) (flags : TokenFlags) (lexeme : Lexeme) (text : List Char) (s : Scanner) :
    Scanner :=
  let token : Token :=
    { kind := lexeme.kind
      start
      source := text.take lexeme.size
      value := String.ofList lexeme.value
      flags := flags.union lexeme.flags }
  { s with rest := text.drop lexeme.size, token }.note token.span lexeme.problem

/-- Passes over trivia and takes the token after it. At the end of the text that is the empty
end-of-file token, however often it is asked for. -/
def next (s : Scanner) : Scanner :=
  let before := s.token.stop
  let trivia := Trivia.ofChars (before == 0) s.rest
  let start := before + byteLength (s.rest.take trivia.size)
  let text := s.rest.drop trivia.size
  let flags : TokenFlags := { afterLineBreak := trivia.lineBreak }
  let s := match trivia.unclosed with
    | none => s
    | some length =>
      let comment := (s.rest.take trivia.size).drop (trivia.size - length)
      s.note ⟨start - byteLength comment, start⟩ (some .unterminatedComment)
  match text with
  | [] => s.take start flags { kind := .endOfFile, size := 0 } []
  | c :: cs => s.take start flags (.ofChars c cs) text

/-- The text from the current token on. -/
def fromToken (s : Scanner) : List Char := s.token.source ++ s.rest

/-- Takes the current token again as another lexeme. Flags it has remain. -/
def retake (lexeme : Lexeme) (s : Scanner) : Scanner :=
  s.take s.token.start s.token.flags lexeme s.fromToken

/-- Reads a `>` as the longest operator it begins. -/
def rescanGreaterThan (s : Scanner) : Scanner :=
  if s.token.kind = .greaterThan then
    let (kind, more) := Lexeme.afterGreaterThan s.rest
    s.retake { kind, size := more + 1 }
  else s

/-- Reads a `/` or `/=` as the beginning of a regular expression. -/
def rescanSlash (s : Scanner) : Scanner :=
  if s.token.kind = .slash ∨ s.token.kind = .slashEquals then
    s.retake (.regularExpression s.fromToken)
  else s

/-- Reads a `\x7d` as the end of a substitution, with the piece of the template after it. -/
def rescanTemplate (s : Scanner) : Scanner :=
  if s.token.kind = .closeBrace then
    s.retake (.template .templateTail .templateMiddle s.fromToken.tail)
  else s

/-- Reads the current token again. -/
def rescan : Rescan → Scanner → Scanner
  | .greaterThan => rescanGreaterThan
  | .slash => rescanSlash
  | .template => rescanTemplate

/-- Returns to an earlier state of the scanner. Of the diagnostics, as many stay as it had then. -/
def backTo (saved s : Scanner) : Scanner :=
  { s with
    rest := saved.rest
    token := saved.token
    diagnostics := s.diagnostics.take saved.diagnostics.length }

/-- Scans up to and including the end of the text and collects a view of each state on the way.
Every token but the last takes at least one character, so the length of the text bounds their
number. -/
def collect {α : Type} (view : Scanner → α) (adjust : Scanner → Scanner) (s : Scanner) :
    List α × Scanner :=
  go (s.rest.length + 1) s
where
  go : Nat → Scanner → List α × Scanner
    | 0, s => ([], s)
    | n + 1, s =>
      let s := adjust s.next
      if s.token.kind = .endOfFile then ([view s], s)
      else
        let (views, last) := go n s
        (view s :: views, last)

/-- All tokens of a file, the end-of-file token last, and what was noted on the way. -/
def tokens (file : String) (text : List Char) : List Token × Diagnostics :=
  let (tokens, last) := (ofText file text).collect (·.token) id
  (tokens, last.diagnostics)

/-! ## What scanning keeps -/

/-- What is found while scanning is noted after all else, and the file stays the same. -/
structure Extends (s t : Scanner) : Prop where
  file : t.file = s.file
  diagnostics : s.diagnostics <+: t.diagnostics

theorem Extends.refl (s : Scanner) : s.Extends s := ⟨rfl, List.prefix_refl _⟩

theorem Extends.trans {s t u : Scanner} (h : s.Extends t) (h' : t.Extends u) : s.Extends u :=
  ⟨h'.file.trans h.file, h.diagnostics.trans h'.diagnostics⟩

theorem extends_note (span : Span) (problem : Option Problem) (s : Scanner) :
    s.Extends (s.note span problem) := by
  cases problem with
  | none => exact .refl s
  | some p => exact ⟨rfl, List.prefix_append _ _⟩

theorem extends_take (start : Nat) (flags : TokenFlags) (l : Lexeme) (cs : List Char)
    (s : Scanner) : s.Extends (s.take start flags l cs) := by
  obtain ⟨file, diagnostics⟩ := extends_note _ l.problem _
  exact ⟨file, diagnostics⟩

theorem extends_next (s : Scanner) : s.Extends s.next := by
  unfold next
  dsimp only
  split <;> refine .trans ?_ (extends_take ..) <;> split
  all_goals first | exact .refl s | exact extends_note ..

theorem extends_rescan (way : Rescan) (s : Scanner) : s.Extends (s.rescan way) := by
  cases way <;> simp only [Scanner.rescan, rescanGreaterThan, rescanSlash, rescanTemplate] <;>
    split <;> first | exact extends_take .. | exact .refl s

/-- From a state that scanning has led to the way back leads to where it began. -/
theorem Extends.backTo {s t : Scanner} (h : s.Extends t) : s.backTo t = s := by
  simp only [Scanner.backTo, h.file, List.prefix_iff_eq_take.1 h.diagnostics |>.symm]

end Scanner

end FactorySync
