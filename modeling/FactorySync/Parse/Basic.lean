import FactorySync.Token.Scanner
import FactorySync.Tree.Node

/-!
# Parsers

A `Parser` reads tokens from a `State` and notes problems as it goes; it never rejects a text. The
productions of the grammar refer to each other in circles. Each circle passes through one of the
few `Goal`s: a production does not call a goal's production but asks for the goal (`Parser.need`),
and the knot is tied once, where the whole grammar is known. The same holds for repetition, which
goes through `Parser.loop`.

A parser yields `none` where it gives up: when it has used up its allowance of nested goals or of
rounds of one loop, when a loop goes on without having consumed a token, and when a counter would go
below zero. No text makes it give up. Texts have fewer than `offsetCount` bytes, so offsets and
counters are natural numbers.
-/

namespace FactorySync

/-- The parts of the grammar that may occur within themselves. -/
inductive Goal where
  | statement
  | assignment
  /-- Operands joined by operators that bind tighter than the given strength. -/
  | binary (strength : Nat)
  | unary
  /-- An expression that begins with `new`. -/
  | construction
  | type
  /-- The type after the `extends` of a conditional type. -/
  | boundType
  /-- A type that may begin with an operator such as `keyof`. -/
  | typeOperand
  | bindingName
  deriving Repr, DecidableEq

namespace Parse

/-- How far a file has been read. -/
structure Reading where
  scanner : Scanner
  /-- The end of the last token that was consumed. Nodes end here. -/
  lastEnd : Nat := 0
  /-- The parser's own notes, newest first. -/
  notes : List Diagnostic := []

namespace Reading

/-- The current token. -/
def token (r : Reading) : Token := r.scanner.token

/-- Where the current token starts. -/
def here (r : Reading) : Nat := r.token.start

/-- Consumes the current token. -/
def advance (r : Reading) : Reading :=
  { r with lastEnd := r.token.stop, scanner := r.scanner.next }

/-- Reads the current token in another way. -/
def rescan (way : Rescan) (r : Reading) : Reading := { r with scanner := r.scanner.rescan way }

/-- Notes a problem at the current token, unless the last note starts at the same place. One problem
tends to cause more at its place, and those tell nothing new. -/
def note (p : Problem) (r : Reading) : Reading :=
  if (r.notes.head?.bind (·.span)).map (·.start) = some r.here then r
  else { r with notes := .ofProblem r.scanner.file r.token.span p :: r.notes }

/-- Returns to an earlier point. Of the notes, as many stay as there were then. -/
def backTo (saved r : Reading) : Reading where
  scanner := saved.scanner.backTo r.scanner
  lastEnd := saved.lastEnd
  notes := r.notes.drop (r.notes.length - saved.notes.length)

end Reading

/-- One move of a parser. -/
inductive Step : Reading → Reading → Prop
  | advance (r : Reading) : Step r r.advance
  | rescan (way : Rescan) (r : Reading) : Step r (r.rescan way)
  | note (p : Problem) (isError : p.template.category = .error) (r : Reading) : Step r (r.note p)
  /-- What only deserves a warning is noted at a token that is consumed at once. -/
  | passOver (p : Problem) (r : Reading) (more : r.token.kind ≠ .endOfFile) :
    Step r (r.note p).advance

/-- Any number of moves. -/
inductive Run : Reading → Reading → Prop
  | refl (r : Reading) : Run r r
  | step {r s t : Reading} (run : Run r s) (last : Step s t) : Run r t

theorem Run.trans {r s t : Reading} (first : Run r s) (second : Run s t) : Run r t := by
  induction second with
  | refl => exact first
  | step _ last ih => exact .step ih last

theorem Step.run {r s : Reading} (step : Step r s) : Run r s := .step (.refl r) step

namespace Reading

/-- What is found while reading is noted after all else. -/
structure Extends (r s : Reading) : Prop where
  scanner : r.scanner.Extends s.scanner
  notes : r.notes <:+ s.notes

theorem Extends.refl (r : Reading) : r.Extends r := ⟨.refl _, List.suffix_refl _⟩

theorem Extends.trans {r s t : Reading} (h : r.Extends s) (h' : s.Extends t) : r.Extends t :=
  ⟨h.scanner.trans h'.scanner, h.notes.trans h'.notes⟩

theorem extends_advance (r : Reading) : r.Extends r.advance :=
  ⟨Scanner.extends_next r.scanner, List.suffix_refl _⟩

theorem extends_note (p : Problem) (r : Reading) : r.Extends (r.note p) := by
  unfold note
  split
  · exact .refl r
  · exact ⟨.refl _, List.suffix_cons _ _⟩

/-- From a point that reading has led to the way back leads to where it began. -/
theorem Extends.backTo {r s : Reading} (h : r.Extends s) : r.backTo s = r := by
  simp only [Reading.backTo, h.scanner.backTo, List.suffix_iff_eq_drop.1 h.notes |>.symm]

end Reading

theorem Step.extends {r s : Reading} (step : Step r s) : r.Extends s := by
  cases step with
  | advance => exact r.extends_advance
  | rescan way => exact ⟨Scanner.extends_rescan way _, List.suffix_refl _⟩
  | note p => exact r.extends_note p
  | passOver p => exact (r.extends_note p).trans (Reading.extends_advance _)

theorem Run.extends {r s : Reading} (run : Run r s) : r.Extends s := by
  induction run with
  | refl => exact .refl r
  | step _ last ih => exact ih.trans last.extends

structure State extends Reading where
  /-- Whether an `extends` that follows belongs to a conditional type further out. -/
  inExtends : Bool := false
  /-- How many expressions and types are being read within one another. -/
  depth : Nat := 0
  /-- The number of characters of the file, which bounds the rounds of every loop. -/
  size : Nat

/-- Returns to an earlier state. The nesting of expressions and types is left as it is. -/
def State.backTo (saved s : State) : State :=
  { s with
    toReading := saved.toReading.backTo s.toReading
    inExtends := saved.inExtends }

/-- What every parser leaves behind: it has moved on in the file and stands in the same context. -/
structure State.Leads (s t : State) : Prop where
  run : Run s.toReading t.toReading
  inExtends : t.inExtends = s.inExtends
  depth : t.depth = s.depth
  size : t.size = s.size

namespace State.Leads

theorem refl (s : State) : s.Leads s := ⟨.refl _, rfl, rfl, rfl⟩

theorem trans {s t u : State} (first : s.Leads t) (second : t.Leads u) : s.Leads u :=
  ⟨first.run.trans second.run, second.inExtends.trans first.inExtends,
    second.depth.trans first.depth, second.size.trans first.size⟩

/-- Whatever a parser has done, it can be undone. -/
theorem backTo {s t : State} (h : s.Leads t) : s.backTo t = s := by
  obtain ⟨run, inExtends, depth, size⟩ := h
  simp only [State.backTo, run.extends.backTo, depth, size]

end State.Leads

end Parse

open Parse

/-- What a parser is given to read a goal. -/
abbrev Knot := Goal → State → Option (Node × State)

/-- Reading a goal leads on in the file. -/
def Knot.Leads (knot : Knot) : Prop :=
  ∀ {goal : Goal} {s : State} {n : Node} {t : State}, knot goal s = some (n, t) → s.Leads t

/-- Reads tokens and yields a value, unless an allowance is used up. -/
structure Parser (α : Type) where
  run : Knot → State → Option (α × State)
  leads : ∀ {knot : Knot}, knot.Leads → ∀ {s : State} {a : α} {t : State},
    run knot s = some (a, t) → s.Leads t

namespace Parser

variable {α β : Type}

protected def pure (a : α) : Parser α where
  run _ s := some (a, s)
  leads _ s a t h := by
    cases h
    exact .refl s

protected def bind (p : Parser α) (f : α → Parser β) : Parser β where
  run knot s :=
    match p.run knot s with
    | none => none
    | some (a, t) => (f a).run knot t
  leads hk s b u h := by
    split at h
    · cases h
    · next a t ht => exact (p.leads hk ht).trans ((f a).leads hk h)

instance : Monad Parser where
  pure := Parser.pure
  bind := Parser.bind

theorem run_eq_bind {p : Parser α} {f : α → Parser β} {knot : Knot} {s : State} :
    (p >>= f).run knot s = (p.run knot s).bind fun r => (f r.1).run knot r.2 := by
  show (Parser.bind p f).run knot s = _
  simp only [Parser.bind]
  cases p.run knot s with
  | none => rfl
  | some r => rfl

/-! ## State -/

/-- A view of the state. -/
def view (f : State → α) : Parser α where
  run _ s := some (f s, s)
  leads _ s a t h := by
    cases h
    exact .refl s

/-- Reads a goal. -/
def need (goal : Goal) : Parser Node where
  run knot s := knot goal s
  leads hk _ _ _ h := hk h

/-- Gives up. -/
def giveUp : Parser α where
  run _ _ := none
  leads := by simp

/-- One less. A counter at zero cannot be counted down. -/
def countDown : Nat → Parser Nat
  | 0 => giveUp
  | n + 1 => .pure n

/-- Makes one move. -/
def move (f : Reading → Reading) (step : ∀ r, Run r (f r)) : Parser Unit where
  run _ s := some ((), { s with toReading := f s.toReading })
  leads _ s a t h := by
    cases h
    exact ⟨step _, rfl, rfl, rfl⟩

def token : Parser Token := view (·.token)

def kind : Parser Kind := view (·.token.kind)

/-- Where the current token starts. -/
def here : Parser Nat := view (·.here)

/-- Where the last consumed token ends. -/
def lastEnd : Parser Nat := view (·.lastEnd)

def afterLineBreak : Parser Bool := view (·.token.flags.afterLineBreak)

/-- The text from the current token on. -/
def remaining : Parser (List Char) := view (·.scanner.fromToken)

/-- How much has been noted so far, by the parser and the scanner. -/
def noteCount : Parser Nat := view fun s => s.notes.length + s.scanner.diagnostics.length

/-! ## Moves -/

/-- Consumes the current token. -/
def advance : Parser Unit := move Reading.advance fun r => (Step.advance r).run

/-- Reads the current token in another way. -/
def rescan (way : Rescan) : Parser Unit := move (.rescan way) fun r => (Step.rescan way r).run

/-- Notes an error at the current token. -/
def note (p : Problem) (isError : p.template.category = .error) : Parser Unit :=
  move (.note p) fun r => (Step.note p isError r).run

/-- Notes a problem that may be a mere warning, and consumes the token it is about. -/
def passOver (p : Problem) : Parser Unit :=
  move (fun r => if r.token.kind = .endOfFile then r else (r.note p).advance) fun r => by
    split
    · exact .refl r
    · next more => exact (Step.passOver p r more).run

/-! ## Tokens -/

/-- Consumes a token that is due, or notes that it is missing. Tells whether it was there. -/
def expect (k : Kind) : Parser Bool := do
  if (← kind) = k then
    advance
    return true
  else
    note (.expected k.display) (Problem.expected_isError _)
    return false

/-- Consumes a token that is due, or notes that it is missing. -/
def require (k : Kind) : Parser Unit := do
  let _ ← expect k

/-- Consumes a token that is due unless the condition holds, or notes that it is missing. -/
def requireUnless (condition : Bool) (k : Kind) : Parser Unit := do
  unless condition do require k

/-- Consumes a token of this kind if it comes next. Tells whether it was there. -/
def accept (k : Kind) : Parser Bool := do
  if (← kind) = k then
    advance
    return true
  else
    return false

/-- Consumes the current token if the condition holds. -/
def skipIf (condition : Bool) : Parser Unit := do
  if condition then advance

/-- Consumes the current token and keeps it. -/
def keep (role : MarkRole) : Parser Mark := do
  let t ← token
  advance
  return ⟨role, t.kind, t.span⟩

/-- Consumes and keeps a token of this kind if it comes next. -/
def keepIf (role : MarkRole) (k : Kind) : Parser (List Mark) := do
  if (← kind) = k then
    return [← keep role]
  else
    return []

/-! ## Looking ahead -/

/-- Runs a parser and returns to where it began. -/
def lookAhead (p : Parser α) : Parser α where
  run knot s := (p.run knot s).map fun r => (r.1, s.backTo r.2)
  leads hk s a t h := by
    obtain ⟨r, hr, ht⟩ := Option.map_eq_some_iff.1 h
    cases ht
    rw [(p.leads hk hr).backTo]
    exact .refl s

/-- Runs a parser and returns to where it began if it finds nothing. -/
def attempt (p : Parser (Option α)) : Parser (Option α) where
  run knot s := (p.run knot s).map fun r => if r.1.isSome then r else (r.1, s.backTo r.2)
  leads hk s a t h := by
    obtain ⟨r, hr, ht⟩ := Option.map_eq_some_iff.1 h
    split at ht
    · cases ht
      exact p.leads hk hr
    · cases ht
      rw [(p.leads hk hr).backTo]
      exact .refl s

/-- Whether the token after the current one satisfies `test`. -/
def nextIs (test : Kind → Bool) : Parser Bool :=
  lookAhead do
    advance
    return test (← kind)

/-- Whether the token after the current one stands on its line and satisfies `test`. -/
def nextOnLineIs (test : Kind → Bool) : Parser Bool :=
  lookAhead do
    advance
    return !(← afterLineBreak) && test (← kind)

/-! ## The end of statements -/

/-- Whether a statement may end here: before `;` or `\x7d`, at the end of the file, or because the
line is over. -/
def atStatementEnd : Parser Bool := do
  match ← kind with
  | .semicolon | .closeBrace | .endOfFile => return true
  | _ => afterLineBreak

/-- Ends a statement. -/
def endStatement : Parser Unit := do
  if (← kind) = .semicolon then advance
  else unless ← atStatementEnd do note (.expected ";") (Problem.expected_isError _)

/-! ## Repetition -/

/-- Runs rounds until one yields a result on the right. A round that goes on without having consumed
a token might go on for ever. -/
def iterate (round : α → Parser (α ⊕ β)) : Nat → α → Parser β
  | 0, _ => giveUp
  | n + 1, a => do
    let start ← here
    match ← round a with
    | .inl a => if start < (← here) then iterate round n a else giveUp
    | .inr b => return b

/-- Runs rounds until one yields a result on the right. Every round but the last consumes a token,
so the length of the file bounds their number. -/
def loop (round : α → Parser (α ⊕ β)) (start : α) : Parser β := do
  iterate round ((← view (·.size)) + 2) start

/-- Reads items as long as the current token satisfies `test`. -/
def manyWhile (test : Parser Bool) (item : Parser α) : Parser (List α) :=
  loop (fun items => do
    if ← test then return .inl ((← item) :: items)
    else return .inr items.reverse) []

/-- Reads items with commas between them up to a token that satisfies `stop`. The list also ends
where a comma is missing. -/
def commaList (stop : Kind → Bool) (item : Parser α) : Parser (List α) :=
  loop (fun items => do
    if stop (← kind) then return .inr items.reverse
    let items := (← item) :: items
    if ← accept .comma then return .inl items
    else return .inr items.reverse) []

/-- Reads at least one item, and one more after each comma. -/
def someByComma (item : Parser α) : Parser (List α) :=
  loop (fun items => do
    let items := (← item) :: items
    if ← accept .comma then return .inl items
    else return .inr items.reverse) []

/-! ## Nodes -/

/-- A node from `start` to the end of the last consumed token. -/
def node (kind : Kind) (start : Nat) (children : List Node := []) : Parser Node := do
  return { kind, span := ⟨start, ← lastEnd⟩, children }

/-- A node put in where the source has nothing. -/
def missing (kind : Kind) (detail : Detail := .none) : Parser Node := do
  return { kind, span := .empty (← here), flags := { missing := true }, detail }

/-- Consumes the current token and makes it a node. -/
def tokenNode : Parser Node := do
  let t ← token
  advance
  return { kind := t.kind, span := t.span }

/-- Reads an optional part that a token introduces. -/
def afterToken (k : Kind) (role : Role) (part : Parser Node) : Parser (List Node) := do
  if ← accept k then return [(← part).inRole role]
  else return []

/-- How deep expressions and types may be nested. -/
def maxDepth : Nat := 200

/-- Reads one level deeper. -/
def nested (p : Parser α) : Parser α where
  run knot s :=
    match p.run knot { s with depth := s.depth + 1 } with
    | none => none
    | some (a, t) =>
      ((countDown t.depth).run knot t).map fun r => (a, { r.2 with depth := r.1 })
  leads hk s a u h := by
    split at h
    · exact nomatch h
    · next a t hr =>
      have l := p.leads hk hr
      rw [l.depth] at h
      cases h
      exact ⟨l.run, l.inExtends, rfl, l.size⟩

/-- Reads one level deeper, or puts in a missing node if that is too deep. -/
def deeper (p : Parser Node) : Parser Node := do
  if (← view (·.depth)) < maxDepth then nested p
  else
    note .nestedTooDeeply rfl
    missing .unknown

/-- Reads with the given answer to whether an `extends` belongs to a type further out. -/
def withExtends (inExtends : Bool) (p : Parser α) : Parser α where
  run knot s :=
    (p.run knot { s with inExtends }).map fun r => (r.1, { r.2 with inExtends := s.inExtends })
  leads hk s a t h := by
    obtain ⟨r, hr, ht⟩ := Option.map_eq_some_iff.1 h
    cases ht
    have l := p.leads hk hr
    exact ⟨l.run, rfl, l.depth, l.size⟩

end Parser

namespace Kind

/-- What ends the statements of a block. -/
def endsBlock (k : Kind) : Bool := k == .closeBrace || k == .endOfFile

/-- What ends a list in parentheses. -/
def endsParens (k : Kind) : Bool := k == .closeParen || k == .endOfFile

/-- What ends a list in brackets. -/
def endsBrackets (k : Kind) : Bool := k == .closeBracket || k == .endOfFile

/-- What ends a list in angle brackets. -/
def endsAngles (k : Kind) : Bool := k == .greaterThan || k == .endOfFile

/-- What ends the statements of a `case` clause. -/
def endsClause (k : Kind) : Bool := k == .caseKeyword || k == .defaultKeyword || k.endsBlock

/-- What a property's name may begin with. -/
def beginsPropertyName (k : Kind) : Bool :=
  k.isPropertyWord || k == .stringLiteral || k == .numericLiteral || k == .bigIntLiteral ||
    k == .openBracket

end Kind

end FactorySync
