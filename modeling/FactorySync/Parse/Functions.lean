import FactorySync.Parse.Signatures

/-!
# Functions in expressions

Function expressions and arrow functions. Whether a parenthesis opens the parameters of an arrow
function shows only at the arrow, so their head is read on trial.
-/

namespace FactorySync
namespace Parser

/-- The `async` mark, if it was there. -/
def asyncIf (isAsync : Bool) : Modifiers := { isAsync }

/-- The body of an arrow function: a block, or an expression. -/
def arrowBody : Parser Node := do
  if (← kind) = .openBrace then block else need .assignment

/-- An arrow function with one bare parameter. -/
def simpleArrow (start : Nat) (isAsync : Bool) : Parser Node := do
  skipIf isAsync
  let name ← identifier
  let parameter : Node :=
    { role := .parameters, kind := .parameter, span := name.span, children := [name.inRole .name] }
  require .equalsGreaterThan
  let body ← arrowBody
  return { ← node .arrowFunction start [parameter, body.inRole .body] with
    modifiers := asyncIf isAsync }

/-- An arrow function with parameters in parentheses, or nothing if what is here is none. -/
def parenthesizedArrow (start : Nat) (isAsync : Bool) : Parser (Option Node) := do
  let before ← noteCount
  skipIf isAsync
  let (lists, typeParameters) ← typeParameters
  if (← kind) = .openParen then
    let parameters ← parameterList
    let result ← returnType
    let isHead := (← kind) == .equalsGreaterThan && !(← afterLineBreak) && (← noteCount) == before
    if isHead then
      advance
      let body ← arrowBody
      return some { ← node .arrowFunction start
          (typeParameters ++ parameters ++ result ++ [body.inRole .body]) with
        modifiers := asyncIf isAsync, lists }
    else return none
  else return none

/-- Whether a name and an arrow on its line come next, after `async` if that is here. -/
def beginsSimpleArrow (isAsync : Bool) : Parser Bool :=
  lookAhead do
    skipIf isAsync
    if (← kind).isName then
      advance
      return (← kind) == .equalsGreaterThan && !(← afterLineBreak)
    else return false

/-- Whether a token may open the head of an arrow function. -/
def opensHead (k : Kind) : Bool := k == .openParen || k == .lessThan

/-- Whether `async` is here and an arrow function may follow on its line. -/
def beginsAsyncArrow : Parser Bool := do
  if (← kind) = .asyncKeyword then nextOnLineIs fun k => k.isName || opensHead k
  else return false

/-- Whether the head of an arrow function may open here, or behind `async`. -/
def mayOpenHead (isAsync : Bool) : Parser Bool := do
  if isAsync then nextOnLineIs opensHead else return opensHead (← kind)

/-- An arrow function, or nothing if what is here is none. -/
def arrowFunction : Parser (Option Node) := do
  let start ← here
  let isAsync ← beginsAsyncArrow
  if ← beginsSimpleArrow isAsync then
    return some (← simpleArrow start isAsync)
  else if ← mayOpenHead isAsync then attempt (parenthesizedArrow start isAsync)
  else return none

/-- A function expression from its `function` on. -/
def functionExpression (isAsync : Bool) : Parser Node := do
  let start ← here
  require .functionKeyword
  let asterisk ← keepIf .asterisk .asterisk
  let name ← optionalName .name
  let (lists, parts) ← signature
  let body ← block
  return { ← node .functionExpression start (name ++ parts ++ [body.inRole .body]) with
    modifiers := asyncIf isAsync, marks := asterisk, lists }

end Parser
end FactorySync
