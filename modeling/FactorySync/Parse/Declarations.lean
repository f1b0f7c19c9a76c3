import FactorySync.Parse.Expressions
import FactorySync.Parse.Types

/-!
# Declarations

Declarations of variables, functions, interfaces, type aliases and enums, and constructs outside the
grammar, which are passed over as a whole with the identifiers they mention.
-/

namespace FactorySync
namespace Parser

/-! ## Variables and functions -/

/-- The `!` behind a declared name on its line. -/
def definiteMark : Parser (List Mark) := do
  if ← afterLineBreak then return [] else keepIf .exclamation .exclamation

def variableDeclaration : Parser Node := do
  let start ← here
  let name ← need .bindingName
  let exclamation ← definiteMark
  let type ← declaredType
  let value ← initializer
  return { ← node .variableDeclaration start (name.inRole .name :: type ++ value) with
    marks := exclamation }

def variableStatement (start : Nat) (modifiers : Modifiers) : Parser Node := do
  let listStart ← here
  let word ← kind
  advance
  let declarations ← someByComma variableDeclaration
  let list ← node .variableDeclarationList listStart (declarations.map (·.inRole .declarations))
  endStatement
  let flags : NodeFlags := { isLet := word == .letKeyword, isConst := word == .constKeyword }
  let list := { list with flags }
  return { ← node .variableStatement start [list.inRole .declarationList] with modifiers }

/-- The name of a declared function. Only a default export may do without one. -/
def functionName (isDefault : Bool) : Parser (List Node) := do
  let name ← optionalName .name
  unless isDefault || !name.isEmpty do note .identifierExpected Problem.identifierExpected_isError
  return name

/-- The body of a declared function, or the end of a declaration without one. -/
def functionBody : Parser (List Node) := do
  if (← kind) = .openBrace then return [(← block).inRole .body]
  else
    endStatement
    return []

def functionDeclaration (start : Nat) (modifiers : Modifiers) : Parser Node := do
  require .functionKeyword
  let asterisk ← keepIf .asterisk .asterisk
  let name ← functionName modifiers.isDefault
  let (lists, parts) ← signature
  let body ← functionBody
  return { ← node .functionDeclaration start (name ++ parts ++ body) with
    modifiers, marks := asterisk, lists }

/-! ## Interfaces, type aliases, enums -/

/-- A base type: a dotted name with type arguments. -/
def heritageType : Parser Node := do
  let start ← here
  let name ← entityName
  let (lists, arguments) ← optionalTypeArguments
  return { ← node .expressionWithTypeArguments start (name.inRole .expression :: arguments) with
    lists }

def heritageClause : Parser Node := do
  let start ← here
  let word ← kind
  advance
  let types ← someByComma heritageType
  return { ← node .heritageClause start (types.map (·.inRole .types)) with
    detail := .heritage word }

def heritageClauses : Parser (List Node) := do
  let isClause : Parser Bool := do
    let k ← kind
    return k == .extendsKeyword || k == .implementsKeyword
  let clauses ← manyWhile isClause heritageClause
  return clauses.map (·.inRole .heritageClauses)

def interfaceDeclaration (start : Nat) (modifiers : Modifiers) : Parser Node := do
  require .interfaceKeyword
  let name ← identifier
  let (lists, typeParameters) ← typeParameters
  let clauses ← heritageClauses
  let members ← typeMembers
  return { ← node .interfaceDeclaration start
      (name.inRole .name :: typeParameters ++ clauses ++ members) with
    modifiers, lists }

def typeAliasDeclaration (start : Nat) (modifiers : Modifiers) : Parser Node := do
  require .typeKeyword
  let name ← identifier
  let (lists, typeParameters) ← typeParameters
  require .equals
  let type ← need .type
  endStatement
  return { ← node .typeAliasDeclaration start
      (name.inRole .name :: typeParameters ++ [type.inRole .typeNode]) with
    modifiers, lists }

def enumMember : Parser Node := do
  let start ← here
  let name ← propertyName
  let value ← initializer
  node .enumMember start (name.inRole .name :: value)

def enumDeclaration (start : Nat) (modifiers : Modifiers) : Parser Node := do
  require .enumKeyword
  let name ← identifier
  require .openBrace
  let members ← commaList Kind.endsBlock enumMember
  require .closeBrace
  return { ← node .enumDeclaration start (name.inRole .name :: members.map (·.inRole .members)) with
    modifiers }

/-! ## Constructs outside the grammar -/

/-- Where passing over a construct stands. -/
structure Skipping where
  /-- The number of open brackets. -/
  depth : Nat := 0
  /-- For each open template substitution the depth at which it was opened, innermost first. -/
  templates : List Nat := []
  /-- The token before the current one. -/
  previous : Kind
  /-- The identifiers met so far, latest first. -/
  identifiers : List Node := []

/-- Consumes a token and goes on. -/
def skipToken (s : Skipping) : Parser (Skipping ⊕ List Node) := do
  let previous ← kind
  advance
  return .inl { s with previous }

/-- Consumes the brace that closes the outermost bracket. The construct ends with it, unless another
part of it follows: `catch`, `finally`, or after `do` its `while`. -/
def skipLastBrace (word : Kind) (s : Skipping) : Parser (Skipping ⊕ List Node) := do
  advance
  let next ← kind
  if next == .catchKeyword || next == .finallyKeyword ||
      (word == .doKeyword && next == .whileKeyword) then
    return .inl { s with previous := .closeBrace }
  else return .inr s.identifiers.reverse

/-- Passes over one token of a construct that begins with `word`. -/
def skipRound (word : Kind) (s : Skipping) : Parser (Skipping ⊕ List Node) := do
  match ← kind with
  | .endOfFile => return .inr s.identifiers.reverse
  | .openBrace | .openParen | .openBracket => skipToken { s with depth := s.depth + 1 }
  | .templateHead => skipToken { s with templates := s.depth :: s.templates }
  | .semicolon =>
    if s.depth = 0 then
      advance
      return .inr s.identifiers.reverse
    else skipToken s
  | .identifier =>
    if s.previous == .dot || s.previous == .questionDot then skipToken s
    else
      let found ← identifierHere
      return .inl { s with previous := .identifier, identifiers := found :: s.identifiers }
  | .closeBrace =>
    if s.templates.head? = some s.depth then
      rescan .template
      let templates := if (← kind) = .templateTail then s.templates.tail else s.templates
      advance
      return .inl { s with templates, previous := .closeBrace }
    else if s.depth = 0 then return .inr s.identifiers.reverse
    else
      let depth ← countDown s.depth
      if depth = 0 then skipLastBrace word { s with depth } else skipToken { s with depth }
  | .closeParen | .closeBracket =>
    if s.depth = 0 then return .inr s.identifiers.reverse
    else skipToken { s with depth := ← countDown s.depth }
  | _ => skipToken s

/-- The name of a construct that begins with `word`, where it may have one. -/
def unsupportedName (word : Kind) : Parser (List Node) := do
  let isNamed := word == .classKeyword || word == .namespaceKeyword || word == .moduleKeyword
  if isNamed && (← kind) == .identifier then return [(← identifierHere).inRole .name]
  else return []

/-- Passes over a construct outside the grammar and keeps the identifiers it mentions. A closing
bracket that it did not open belongs to what it stands in. -/
def unsupportedStatement (start : Nat) (modifiers : Modifiers) : Parser Node := do
  let word ← kind
  passOver (.unsupported word.display)
  let name ← unsupportedName word
  let identifiers ← loop (skipRound word) { previous := word }
  return { ← node .unsupportedStatement start
      (name ++ identifiers.map (·.inRole .identifiers)) with
    modifiers, detail := .keyword word }

end Parser
end FactorySync
