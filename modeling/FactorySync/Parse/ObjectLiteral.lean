import FactorySync.Parse.Functions

/-!
# Object literals

Beside its members an object literal keeps the offset after each member's comma, so that a member
can be taken out together with the comma.
-/

namespace FactorySync
namespace Parser

/-- The body of a method or accessor, which may not be left out. -/
def requiredBody : Parser (List Node) := do
  if (← kind) = .openBrace then return [(← block).inRole .body]
  else
    note (.expected "\x7b") (Problem.expected_isError _)
    return []

/-- A getter or setter, from its name on. -/
def accessor (start : Nat) (word : Kind) (name : Node) : Parser Node := do
  let parameters ← parameterList
  let result ← returnType
  let body ← requiredBody
  let k := if word = .getKeyword then Kind.getAccessor else .setAccessor
  node k start (name :: parameters ++ result ++ body)

/-- A method, from its parameters on. -/
def method (start : Nat) (modifiers : Modifiers) (name : Node) (asterisk question : List Mark) :
    Parser Node := do
  let (lists, parts) ← signature
  let body ← requiredBody
  return { ← node .methodDeclaration start (name :: parts ++ body) with
    modifiers, marks := asterisk ++ question, lists }

/-- Passes over a default value, if one is here. -/
def skipDefault : Parser Unit := do
  if ← accept .equals then
    let _ ← need .assignment

/-- A property, from what follows its name on. A name alone stands for the variable so called; a
default after it, which only a pattern may have, is passed over. -/
def property (start : Nat) (name : Node) : Parser Node := do
  if ← accept .colon then
    let value ← need .assignment
    node .propertyAssignment start [name, value.inRole .initializer]
  else if name.kind = .identifier then
    skipDefault
    node .shorthandPropertyAssignment start [name]
  else
    note .propertyExpected rfl
    let value ← missing .unknown
    node .propertyAssignment start [name, value.inRole .initializer]

/-- The word `get` or `set`, if it is allowed and here and the name of a property follows. -/
def accessorWord (isAllowed : Bool) : Parser (Option Kind) := do
  let word ← kind
  if isAllowed && (word == .getKeyword || word == .setKeyword) &&
      (← nextIs Kind.beginsPropertyName) then
    advance
    return some word
  else return none

/-- The word `async`, if it is here and a method can follow on its line. -/
def asyncWord : Parser Bool := do
  let word ← kind
  if word == .asyncKeyword &&
      (← nextOnLineIs fun k => k.beginsPropertyName || k == .asterisk) then
    advance
    return true
  else return false

def objectMember : Parser Node := do
  let start ← here
  if ← accept .dotDotDot then
    let value ← need .assignment
    node .spreadAssignment start [value.inRole .expression]
  else
    let modifiers := asyncIf (← asyncWord)
    let asterisk ← keepIf .asterisk .asterisk
    let word ← accessorWord asterisk.isEmpty
    let name := (← propertyName).inRole .name
    match word with
    | some word => accessor start word name
    | none =>
      let question ← keepIf .question .question
      let next ← kind
      if !asterisk.isEmpty || next == .openParen || next == .lessThan then
        method start modifiers name asterisk question
      else property start name

/-- Members with the offset after the comma of each. The last one may do without a comma. -/
def objectMembers : Parser (List (Node × Option Nat)) :=
  loop (fun members => do
    if (← kind).endsBlock then return .inr members.reverse
    else
      let member := (← objectMember).inRole .properties
      let t ← token
      if ← accept .comma then return .inl ((member, some t.stop) :: members)
      else return .inr ((member, none) :: members).reverse) []

def objectLiteral : Parser Node := do
  let start ← here
  let text ← remaining
  require .openBrace
  let members ← objectMembers
  require .closeBrace
  let literal ← node .objectLiteralExpression start (members.map (·.1))
  let multiLine := (takeBytes literal.span.length text).contains '\n'
  return { literal with flags := { multiLine }, detail := .separators (members.map (·.2)) }

end Parser
end FactorySync
