import FactorySync.Parse.Names

/-!
# Signatures

What functions, methods and declarations have in common: modifiers, type parameters, parameters,
binding patterns and the types that follow a colon.
-/

namespace FactorySync
namespace Parser

/-! ## Modifiers -/

/-- Whether the word at hand is a modifier here, judged by the token after it. -/
def isModifierHere : Parser Bool := do
  let word ← kind
  lookAhead do
    advance
    let next ← kind
    match word with
    | .constKeyword => return next == .enumKeyword
    | .exportKeyword => return !(next == .openBrace || next == .asterisk || next == .equals)
    | .defaultKeyword =>
      return next == .classKeyword || next == .functionKeyword || next == .interfaceKeyword ||
        next == .abstractKeyword || next == .asyncKeyword
    | _ =>
      return !(← afterLineBreak) &&
        (next.isPropertyWord || next == .openBrace || next == .openBracket || next == .asterisk ||
          next == .dotDotDot)

/-- The modifiers in front of a declaration, member or parameter. -/
def modifiers : Parser Modifiers :=
  loop (fun found => do
    let word ← kind
    if word.isModifier then
      if ← isModifierHere then
        advance
        return .inl (found.union (.ofKind word))
    return .inr found) {}

/-! ## Types after a colon -/

def declaredType : Parser (List Node) := afterToken .colon .declaredType (need .type)

/-- The parameter that a type predicate is about. -/
def predicateSubject : Parser Node := do
  if (← kind) = .thisKeyword then tokenNode else identifier

/-- A type, or a predicate such as `x is T` or `asserts x`. -/
def typeOrPredicate : Parser Node := do
  let start ← here
  let first ← kind
  if first == .assertsKeyword && (← nextOnLineIs fun k => k.isName || k == .thisKeyword) then
    let mark ← keep .asserts
    let subject ← predicateSubject
    let type ← afterToken .isKeyword .typeNode (need .type)
    return { ← node .typePredicate start (subject.inRole .parameterName :: type) with
      marks := [mark] }
  else if (first.isName || first == .thisKeyword) && (← nextOnLineIs (· == .isKeyword)) then
    let subject ← predicateSubject
    advance
    let type ← need .type
    node .typePredicate start [subject.inRole .parameterName, type.inRole .typeNode]
  else need .type

def returnType : Parser (List Node) := afterToken .colon .returnType typeOrPredicate

/-! ## Type parameters and arguments -/

/-- One type parameter, with `const`, `in` or `out` in front of it. -/
def typeParameter : Parser Node := do
  let start ← here
  loop (fun _ => do
    let t ← token
    let isVariance := t.kind == .constKeyword || t.kind == .inKeyword ||
      (t.kind == .identifier && t.value == "out")
    if isVariance && (← nextIs Kind.isName) then
      advance
      return .inl ()
    else return .inr ()) ()
  let name ← identifier
  let constraint ← afterToken .extendsKeyword .constraint (need .type)
  let fallback ← afterToken .equals .fallback (need .type)
  node .typeParameter start (name.inRole .name :: constraint ++ fallback)

/-- Type parameters in angle brackets, if any. Tells whether they are there. -/
def typeParameters : Parser (List Role × List Node) := do
  if ← accept .lessThan then
    let parameters ← commaList Kind.endsAngles typeParameter
    require .greaterThan
    return ([.typeParameters], parameters.map (·.inRole .typeParameters))
  else return ([], [])

/-- Type arguments in angle brackets. -/
def typeArguments : Parser (List Node) := do
  require .lessThan
  let arguments ← commaList Kind.endsAngles (need .type)
  require .greaterThan
  return arguments.map (·.inRole .typeArguments)

/-- Type arguments if they begin here. Tells whether they are there. -/
def optionalTypeArguments : Parser (List Role × List Node) := do
  if (← kind) = .lessThan then return ([.typeArguments], ← typeArguments)
  else return ([], [])

/-! ## Binding patterns -/

def initializer : Parser (List Node) := afterToken .equals .initializer (need .assignment)

/-- What an element of a pattern in braces reads and binds: `a` or `a: b`. -/
def boundProperty : Parser (List Node) := do
  let property ← propertyName
  if ← accept .colon then
    let name ← need .bindingName
    return [property.inRole .propertyName, name.inRole .name]
  else if property.kind = .identifier then return [property.inRole .name]
  else
    note (.expected ":") (Problem.expected_isError _)
    let name ← missingIdentifier
    return [property.inRole .propertyName, name.inRole .name]

/-- What an element of a pattern binds after `...`. -/
def boundRest : Parser (List Node) := do
  return [(← need .bindingName).inRole .name]

/-- What an element of a pattern in braces reads and binds. -/
def boundNames (isRest : Bool) : Parser (List Node) := if isRest then boundRest else boundProperty

/-- One element of a pattern in braces: `a`, `a: b` or `...rest`, with an optional default. -/
def objectBindingElement : Parser Node := do
  let start ← here
  let rest ← keepIf .dotDotDot .dotDotDot
  let names ← boundNames !rest.isEmpty
  let value ← initializer
  return { ← node .bindingElement start (names ++ value) with marks := rest }

def objectBindingPattern : Parser Node := do
  let start ← here
  require .openBrace
  let elements ← commaList Kind.endsBlock objectBindingElement
  require .closeBrace
  node .objectBindingPattern start (elements.map (·.inRole .elements))

def arrayBindingElement : Parser Node := do
  let start ← here
  let rest ← keepIf .dotDotDot .dotDotDot
  let name ← need .bindingName
  let value ← initializer
  return { ← node .bindingElement start (name.inRole .name :: value) with marks := rest }

/-- Elements in brackets up to the closing one. A comma where an element is due leaves a hole, which
is an empty node of the given kind. -/
def elementsWithHoles (holeKind : Kind) (element : Parser Node) : Parser (List Node) :=
  loop (fun elements => do
    let k ← kind
    if k.endsBrackets then return .inr elements.reverse
    else if k = .comma then
      let start ← here
      advance
      return .inl ({ kind := holeKind, span := .empty start } :: elements)
    else
      let elements := (← element) :: elements
      if ← accept .comma then return .inl elements
      else return .inr elements.reverse) []

def arrayBindingPattern : Parser Node := do
  let start ← here
  require .openBracket
  let elements ← elementsWithHoles .hole arrayBindingElement
  require .closeBracket
  node .arrayBindingPattern start (elements.map (·.inRole .elements))

/-- What a declaration binds: an identifier or a pattern. -/
def bindingName : Parser Node := do
  match ← kind with
  | .openBrace => objectBindingPattern
  | .openBracket => arrayBindingPattern
  | _ => identifier

/-! ## Parameters -/

/-- What a parameter binds. The receiver of a function is declared as `this`. -/
def parameterName : Parser Node := do
  if (← kind) = .thisKeyword then identifierHere else need .bindingName

def parameter : Parser Node := do
  let start ← here
  let modifiers ← modifiers
  let rest ← keepIf .dotDotDot .dotDotDot
  let name ← parameterName
  let question ← keepIf .question .question
  let type ← declaredType
  let value ← initializer
  return { ← node .parameter start (name.inRole .name :: type ++ value) with
    modifiers, marks := rest ++ question }

/-- Parameters in parentheses. Without an opening one there are none. -/
def parameterList : Parser (List Node) := do
  if ← expect .openParen then
    let parameters ← commaList Kind.endsParens parameter
    require .closeParen
    return parameters.map (·.inRole .parameters)
  else return []

/-- Type parameters, parameters and return type. -/
def signature : Parser (List Role × List Node) := do
  let (lists, typeParameters) ← typeParameters
  let parameters ← parameterList
  let result ← returnType
  return (lists, typeParameters ++ parameters ++ result)

/-! ## Blocks -/

/-- Tokens at which reading resumes after a statement that could not be read. -/
def resumesStatements : Kind → Bool
  | .varKeyword | .letKeyword | .constKeyword | .functionKeyword | .classKeyword
  | .interfaceKeyword | .enumKeyword | .typeKeyword | .ifKeyword | .forKeyword | .whileKeyword
  | .doKeyword | .switchKeyword | .returnKeyword | .throwKeyword | .tryKeyword | .breakKeyword
  | .continueKeyword | .exportKeyword | .importKeyword | .declareKeyword | .closeBrace => true
  | _ => false

/-- Passes over the current token and everything up to where a statement may begin. -/
def skipToStatement : Parser Unit := do
  advance
  loop (fun _ => do
    let k ← kind
    if k.endsBlock then return .inr ()
    else if k = .semicolon then
      advance
      return .inr ()
    else if resumesStatements k then return .inr ()
    else
      advance
      return .inl ()) ()

/-- Statements up to a token that satisfies `stop`. Where a statement consumes nothing, tokens are
passed over. -/
def statements (stop : Kind → Bool) : Parser (List Node) := do
  let found ← manyWhile (return !stop (← kind)) do
    let start ← here
    let statement ← need .statement
    if (← here) = start && !stop (← kind) then skipToStatement
    return statement
  return found.map (·.inRole .statements)

/-- Statements in braces. -/
def block : Parser Node := do
  let start ← here
  require .openBrace
  let statements ← statements Kind.endsBlock
  require .closeBrace
  node .block start statements

end Parser
end FactorySync
