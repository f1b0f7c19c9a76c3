import FactorySync.Json.Number
import FactorySync.Text.Bytes

/-!
# Reading JSON

Readers for the JSON values that settings consist of: strings, lists and objects. A reader knows
what it wants; a value of another type is refused as soon as it is known to be one. `Fault` tells
apart the three ways in which a text can fail. The first fault met from left to right counts.
-/

namespace FactorySync
namespace Json

/-- Why a text is refused. -/
inductive Fault where
  /-- The text ends where more is due. -/
  | endsEarly
  /-- The text is no JSON. -/
  | malformed
  /-- The value is not of the wanted type, or a key is unknown or occurs twice. -/
  | unfit
  deriving Repr, DecidableEq

/-- Takes a value from the front of a text. -/
abbrev Reader := StateT (List Char) (Except Fault)

def isBlank (c : Char) : Bool := c == ' ' || c == '\n' || c == '\t' || c == '\r'

/-- Passes over blanks to the next character. -/
def peek : Reader Char := do
  modify (·.dropWhile isBlank)
  match ← get with
  | [] => throw .endsEarly
  | c :: _ => return c

/-- Passes over one character. -/
def skip : Reader Unit := modify List.tail

/-! ## Strings -/

/-- The value of the four hexadecimal digits a text begins with. -/
def hexEscape (text : List Char) : Except Fault Nat :=
  let digits := text.take 4
  if byteLength text < 4 then .error .endsEarly
  else if digits.length = 4 ∧ digits.all CharClass.isHexDigit then
    .ok (digits.foldl (fun n c => 16 * n + CharClass.hexValue c) 0)
  else .error .malformed

/-- The second half of a character that is written as two escapes. -/
def lowSurrogate : List Char → Except Fault Nat
  | [] | ['\\'] => .error .endsEarly
  | '\\' :: 'u' :: rest => do
    let low ← hexEscape rest
    if 0xDC00 ≤ low ∧ low ≤ 0xDFFF then return low else throw .malformed
  | _ => .error .malformed

/-- The character that the `\u` escape in front of a text stands for, where the text begins after
the `u`, and the number of characters the escape takes up there. Characters outside the basic plane
are written as two escapes, a high and a low surrogate. -/
def unicodeEscape (text : List Char) : Except Fault (Char × Nat) := do
  let first ← hexEscape text
  if 0xDC00 ≤ first ∧ first ≤ 0xDFFF then throw .malformed
  else if 0xD800 ≤ first ∧ first ≤ 0xDBFF then
    let low ← lowSurrogate (text.drop 4)
    return (Char.ofNat ((first - 0xD800) * 0x400 + (low - 0xDC00) + 0x10000), 10)
  else return (Char.ofNat first, 4)

/-- The character that an escape stands for, and the number of characters it takes up after the
backslash. -/
def escape : List Char → Except Fault (Char × Nat)
  | [] => .error .endsEarly
  | 'u' :: rest => do
    let (c, size) ← unicodeEscape rest
    return (c, size + 1)
  | c :: _ =>
    match c with
    | '"' | '\\' | '/' => .ok (c, 1)
    | 'b' => .ok ('\x08', 1)
    | 'f' => .ok ('\x0c', 1)
    | 'n' => .ok ('\n', 1)
    | 'r' => .ok ('\r', 1)
    | 't' => .ok ('\t', 1)
    | _ => .error .malformed

/-- The contents of a string up to its closing quote mark, and the text after it. The first
`skipped` characters belong to an escape that was read already. -/
def stringFrom : Nat → List Char → Except Fault (List Char × List Char)
  | _, [] => .error .endsEarly
  | skipped + 1, _ :: cs => stringFrom skipped cs
  | 0, c :: cs =>
    if c = '"' then .ok ([], cs)
    else if c = '\\' then do
      let (c, size) ← escape cs
      let (value, rest) ← stringFrom size cs
      return (c :: value, rest)
    else if c < ' ' then .error .malformed
    else do
      let (value, rest) ← stringFrom 0 cs
      return (c :: value, rest)

/-! ## Refusing a value -/

/-- Refuses a text that should go on with `word`. -/
def wordFault : List Char → List Char → Fault
  | [], _ => .unfit
  | _, [] => .endsEarly
  | w :: word, c :: text => if w = c then wordFault word text else .malformed

/-- Refuses a number whose digits were read, at what comes after them. -/
def exponentFault (n : Number) : List Char → Fault
  | 'e' :: text | 'E' :: text =>
    let isNegative := text.head? = some '-'
    let text := if isNegative ∨ text.head? = some '+' then text.tail else text
    match text with
    | [] => .endsEarly
    | c :: _ =>
      if CharClass.isDigit c then
        let digits := text.takeWhile CharClass.isDigit
        let size : Int := digits.foldl (fun n c => 10 * n + CharClass.hexValue c) 0
        if (n.scale (if isNegative then -size else size)).isTooLarge then .malformed else .unfit
      else .malformed
  | _ => if n.isTooLarge then .malformed else .unfit

/-- Refuses a number, which begins after its sign. -/
def numberFault (text : List Char) : Fault :=
  let whole := text.takeWhile CharClass.isDigit
  match whole, text.dropWhile CharClass.isDigit with
  | [], [] => .endsEarly
  | [], _ => .malformed
  | '0' :: _ :: _, _ => .malformed
  | _, '.' :: text =>
    let part := text.takeWhile CharClass.isDigit
    match part, text.dropWhile CharClass.isDigit with
    | [], [] => .endsEarly
    | [], _ => .malformed
    | _, rest => exponentFault (.ofDigits whole part) rest
  | _, rest => exponentFault (.ofDigits whole []) rest

/-- Why a value of another type than the wanted one is refused: it is read only so far as to tell
that it is a value. -/
def faultOf : List Char → Fault
  | [] => .endsEarly
  | c :: text =>
    match c with
    | 'n' => wordFault "ull".toList text
    | 't' => wordFault "rue".toList text
    | 'f' => wordFault "alse".toList text
    | '-' => numberFault text
    | '"' =>
      match stringFrom 0 text with
      | .ok _ => .unfit
      | .error fault => fault
    | '[' | '\x7b' => .unfit
    | _ => if CharClass.isDigit c then numberFault (c :: text) else .malformed

/-- Refuses the value at hand. -/
def refuse {α : Type} : Reader α := do throw (faultOf (← get))

/-! ## Values -/

def string : Reader String := do
  if (← peek) = '"' then
    let (value, rest) ← stringFrom 0 (← get).tail
    set rest
    return String.ofList value
  else refuse

/-- Whether a list goes on with another item. -/
def anotherItem (isFirst : Bool) : Reader Bool := do
  let c ← peek
  if c = ']' then return false
  if isFirst then return true
  if c ≠ ',' then throw .malformed
  skip
  if (← peek) = ']' then throw .malformed
  return true

/-- Ends a list. -/
def closeList : Reader Unit := do
  if (← peek) = ']' then skip else throw .malformed

/-- Whether an object goes on with another key. -/
def anotherKey (isFirst : Bool) : Reader Bool := do
  let c ← peek
  if c = '\x7d' then return false
  unless isFirst do
    if c ≠ ',' then throw .malformed
    skip
  if (← peek) ≠ '"' then throw .malformed
  return true

/-- The colon after a key. -/
def colon : Reader Unit := do
  if (← peek) = ':' then skip else throw .malformed

/-- The items of a list of strings, of which those read so far are given, last one first. Every item
takes up characters, so the size of the text bounds their number. -/
def stringItems : Nat → List String → Reader (List String)
  | 0, _ => throw .malformed
  | n + 1, items => do
    if ← anotherItem items.isEmpty then stringItems n ((← string) :: items)
    else return items.reverse

def strings : Reader (List String) := do
  if (← peek) = '[' then
    skip
    let items ← stringItems ((← get).length + 1) []
    closeList
    return items
  else refuse

/-- Reads a whole text as one value. -/
def Reader.readAll {α : Type} (value : Reader α) (text : List Char) : Except Fault α := do
  let (a, rest) ← value.run text
  if (rest.dropWhile isBlank).isEmpty then return a else throw .malformed

end Json
end FactorySync
