import FactorySync.Diagnostic
import FactorySync.Text.CharClass
import FactorySync.Token.Basic

/-!
# Lexemes

A `Lexeme` says what the first token of a text is and how many characters it takes. Each reader
below looks at a text that begins with the token and never takes more than there is, so the source
of the token is the front of that text and the next token is looked for in the rest.

Punctuation is read by the longest spelling that fits, with two exceptions: `>` is always taken
alone, so that nested type arguments close one at a time, and `?.` is not taken in front of a digit.
-/

namespace FactorySync

/-- The first token of a text, in the number of characters it takes. -/
structure Lexeme where
  kind : Kind
  size : Nat
  value : List Char := []
  flags : TokenFlags := {}
  /-- What is wrong with the token. -/
  problem : Option Problem := none
  deriving Repr, DecidableEq

namespace Lexeme

/-! ## Punctuation -/

/-- Punctuation that is read without looking back, longer spellings first. -/
def plainPunctuation : List Kind :=
  [.dotDotDot, .equalsEqualsEquals, .exclamationEqualsEquals, .asteriskAsteriskEquals,
   .lessThanLessThanEquals, .ampersandAmpersandEquals, .barBarEquals, .questionQuestionEquals,
   .questionDot, .lessThanEquals, .equalsEquals, .exclamationEquals, .equalsGreaterThan,
   .plusPlus, .minusMinus, .asteriskAsterisk, .lessThanLessThan, .ampersandAmpersand, .barBar,
   .questionQuestion, .plusEquals, .minusEquals, .asteriskEquals, .slashEquals, .percentEquals,
   .ampersandEquals, .barEquals, .caretEquals,
   .openBrace, .closeBrace, .openParen, .closeParen, .openBracket, .closeBracket, .dot,
   .semicolon, .comma, .lessThan, .greaterThan, .equals, .exclamation, .plus, .minus, .asterisk,
   .slash, .percent, .ampersand, .bar, .caret, .tilde, .question, .colon, .at, .hash]

def spellings : List (List Char × Kind) :=
  plainPunctuation.filterMap fun k => k.punctuationText?.map (·.toList, k)

/-- Whether a text begins with a digit. -/
def beginsWithDigit : List Char → Bool
  | c :: _ => CharClass.isDigit c
  | [] => false

/-- Whether the spelling stands at the front of the text and means this punctuation there. -/
def fits (cs : List Char) (entry : List Char × Kind) : Bool :=
  entry.1.isPrefixOf cs && !(entry.2 == .questionDot && beginsWithDigit (cs.drop 2))

def punctuation? (cs : List Char) : Option Lexeme :=
  (spellings.find? (fits cs)).map fun entry => { kind := entry.2, size := entry.1.length }

/-- The punctuation that `>` begins when it may be more than a closing bracket, by what follows. -/
def afterGreaterThan : List Char → Kind × Nat
  | '>' :: '>' :: '=' :: _ => (.greaterThanGreaterThanGreaterThanEquals, 3)
  | '>' :: '>' :: _ => (.greaterThanGreaterThanGreaterThan, 2)
  | '>' :: '=' :: _ => (.greaterThanGreaterThanEquals, 2)
  | '>' :: _ => (.greaterThanGreaterThan, 1)
  | '=' :: _ => (.greaterThanEquals, 1)
  | _ => (.greaterThan, 0)

/-! ## Escapes -/

/-- What a backslash and the characters after it stand for. -/
structure Escape where
  /-- The number of characters after the backslash. -/
  size : Nat
  value : List Char := []
  isUnicode : Bool := false

/-- The number that hexadecimal digits denote. -/
def hexNumber (digits : List Char) : Nat :=
  digits.foldl (fun n c => 16 * n + CharClass.hexValue c) 0

/-- The character with the given code, if there is one. -/
def charOfCode (n : Nat) : List Char := if n.isValidChar then [Char.ofNat n] else []

/-- Exactly `n` hexadecimal digits; with fewer the escape stands for nothing. -/
def fixedHex (n : Nat) (cs : List Char) : Escape :=
  let digits := cs.take n
  if digits.length = n && digits.all CharClass.isHexDigit then
    { size := n + 1, value := charOfCode (hexNumber digits) }
  else { size := 1 }

/-- Digits up to a closing brace, which may be missing. -/
def bracedHex (cs : List Char) : Escape :=
  let digits := cs.takeWhile CharClass.isHexDigit
  let closing := if (cs.drop digits.length).head? = some '\x7d' then 1 else 0
  { size := 2 + digits.length + closing
    value := if digits.isEmpty then [] else charOfCode (hexNumber digits) }

/-- Reads what follows a backslash. A line break there is left out of the value. -/
def escape : List Char → Escape
  | [] => { size := 0 }
  | 'n' :: _ => { size := 1, value := ['\n'] }
  | 't' :: _ => { size := 1, value := ['\t'] }
  | 'r' :: _ => { size := 1, value := ['\r'] }
  | 'b' :: _ => { size := 1, value := ['\x08'] }
  | 'f' :: _ => { size := 1, value := ['\x0c'] }
  | 'v' :: _ => { size := 1, value := ['\x0b'] }
  | '0' :: cs => { size := 1, value := [if beginsWithDigit cs then '0' else '\x00'] }
  | 'x' :: cs => fixedHex 2 cs
  | 'u' :: '\x7b' :: cs => { bracedHex cs with isUnicode := true }
  | 'u' :: cs => { fixedHex 4 cs with isUnicode := true }
  | '\r' :: '\n' :: _ => { size := 2 }
  | c :: _ => { size := 1, value := if CharClass.isLineBreak c then [] else [c] }

/-! ## Quoted text -/

/-- The contents of a string or template with what ends them. -/
structure Body where
  size : Nat := 0
  value : List Char := []
  /-- Whether the closing mark is there. -/
  closed : Bool := false
  /-- Whether a template goes on with an expression. -/
  substitution : Bool := false
  unicodeEscape : Bool := false

namespace Body

/-- Contents with `n` more characters of source in front. -/
def after (n : Nat) (b : Body) : Body := { b with size := b.size + n }

/-- Contents with one character in front that stands for itself. -/
def cons (c : Char) (b : Body) : Body := { b with size := b.size + 1, value := c :: b.value }

/-- Contents with a backslash in front. The characters of the escape are counted where they are
passed over. -/
def afterEscape (e : Escape) (b : Body) : Body :=
  { b with
    size := b.size + 1
    value := e.value ++ b.value
    unicodeEscape := b.unicodeEscape || e.isUnicode }

end Body

/-- The contents of a string up to its quote, a line break or the end of the text. The first `skip`
characters belong to an escape already read. -/
def stringBody (quote : Char) : Nat → List Char → Body
  | _, [] => {}
  | skip + 1, _ :: cs => (stringBody quote skip cs).after 1
  | 0, c :: cs =>
    if c = quote then { size := 1, closed := true }
    else if c = '\\' then
      let e := escape cs
      (stringBody quote e.size cs).afterEscape e
    else if c = '\n' || c = '\r' then {}
    else (stringBody quote 0 cs).cons c

/-- The contents of a template up to its closing mark, an opened substitution or the end of the
text. Every line break counts as a line feed. -/
def templateBody : Nat → List Char → Body
  | _, [] => {}
  | skip + 1, _ :: cs => (templateBody skip cs).after 1
  | 0, c :: cs =>
    if c = '\x60' then { size := 1, closed := true }
    else if c = '$' && cs.head? = some '\x7b' then
      { size := 2, closed := true, substitution := true }
    else if c = '\\' then
      let e := escape cs
      (templateBody e.size cs).afterEscape e
    else if c = '\r' then
      (templateBody (if cs.head? = some '\n' then 1 else 0) cs).cons '\n'
    else (templateBody 0 cs).cons c

/-- A string that begins with the given quote; `cs` is the text after it. -/
def string (quote : Char) (cs : List Char) : Lexeme :=
  let body := stringBody quote 0 cs
  { kind := .stringLiteral
    size := body.size + 1
    value := body.value
    flags := {
      unterminated := !body.closed
      unicodeEscape := body.unicodeEscape
      singleQuoted := quote == '\'' }
    problem := if body.closed then none else some .unterminatedString }

/-- A piece of a template: its kind is `whole` if the template ends with it and `part` if an
expression follows. The text `cs` comes after the mark that opens the piece. -/
def template (whole part : Kind) (cs : List Char) : Lexeme :=
  let body := templateBody 0 cs
  { kind := if body.substitution then part else whole
    size := body.size + 1
    value := body.value
    flags := { unterminated := !body.closed, unicodeEscape := body.unicodeEscape }
    problem := if body.closed then none else some .unterminatedTemplate }

/-! ## Regular expressions -/

/-- The number of characters of a regular expression after its opening slash, and whether it is
closed on its line. A slash in a character class does not close it. -/
def regularExpressionBody (inClass : Bool) : List Char → Nat × Bool
  | [] => (0, false)
  | '\\' :: c :: cs =>
    if CharClass.isLineBreak c then (1, false)
    else
      let rest := regularExpressionBody inClass cs
      (rest.1 + 2, rest.2)
  | c :: cs =>
    if CharClass.isLineBreak c then (0, false)
    else if c = '/' && !inClass then (1 + (cs.takeWhile CharClass.isIdentifierPart).length, true)
    else
      let rest := regularExpressionBody (c == '[' || (inClass && c != ']')) cs
      (rest.1 + 1, rest.2)

/-- A regular expression; `cs` is the text from its opening slash on. -/
def regularExpression (cs : List Char) : Lexeme :=
  let body := regularExpressionBody false cs.tail
  let size := body.1 + 1
  { kind := .regularExpressionLiteral
    size
    value := cs.take size
    flags := { unterminated := !body.2 }
    problem := if body.2 then none else some .unterminatedRegularExpression }

/-! ## Numbers and words -/

/-- The length of a run of digits and separators. -/
def digitRun (isDigit : Char → Bool) (cs : List Char) : Nat :=
  (cs.takeWhile fun c => c == '_' || isDigit c).length

/-- The digits that follow a radix mark, with the flag the mark sets. -/
def radix? : Char → Option (TokenFlags × (Char → Bool))
  | 'x' | 'X' => some ({ hexadecimal := true }, CharClass.isHexDigit)
  | 'b' | 'B' => some ({ binary := true }, CharClass.isBinaryDigit)
  | 'o' | 'O' => some ({ octal := true }, CharClass.isOctalDigit)
  | _ => none

/-- The length of a point with the digits after it, 0 where there is no point. -/
def fraction : List Char → Nat
  | '.' :: cs => 1 + digitRun CharClass.isDigit cs
  | _ => 0

/-- The length of an exponent, 0 where there is none. -/
def exponent : List Char → Nat
  | c :: cs =>
    if c = 'e' || c = 'E' then
      let sign := if cs.head? = some '+' || cs.head? = some '-' then 1 else 0
      1 + sign + digitRun CharClass.isDigit (cs.drop sign)
    else 0
  | [] => 0

/-- The length of a number without its `n`, and the flags its form sets. -/
def numberForm (cs : List Char) : Nat × TokenFlags :=
  match cs with
  | '0' :: c :: rest =>
    match radix? c with
    | some (flags, isDigit) => (2 + digitRun isDigit rest, flags)
    | none => decimal
  | _ => decimal
where
  decimal : Nat × TokenFlags :=
    let whole := digitRun CharClass.isDigit cs
    let point := fraction (cs.drop whole)
    let power := exponent (cs.drop (whole + point))
    (whole + point + power, { scientific := power != 0 })

/-- A number; a final `n` makes it an integer of any size. -/
def number (cs : List Char) : Lexeme :=
  let (length, flags) := numberForm cs
  let isBig := (cs.drop length).head? = some 'n'
  let size := if isBig then length + 1 else length
  { kind := if isBig then .bigIntLiteral else .numericLiteral
    size
    value := cs.take size
    flags := { flags with separated := (cs.take length).contains '_' } }

/-- A name or keyword. -/
def word (cs : List Char) : Lexeme :=
  let text := cs.takeWhile CharClass.isIdentifierPart
  { kind := (Kind.ofWord? (String.ofList text)).getD .identifier, size := text.length,
    value := text }

/-! ## Any token -/

/-- The token at the front of a text that is not empty and does not begin with trivia. -/
def ofChars (c : Char) (cs : List Char) : Lexeme :=
  if c = '"' || c = '\'' then string c cs
  else if c = '\x60' then template .noSubstitutionTemplateLiteral .templateHead cs
  else if CharClass.isDigit c || (c == '.' && beginsWithDigit cs) then number (c :: cs)
  else if CharClass.isIdentifierStart c then word (c :: cs)
  else
    match punctuation? (c :: cs) with
    | some lexeme => lexeme
    | none => { kind := .unknown, size := 1, problem := some .invalidCharacter }

end Lexeme

end FactorySync
