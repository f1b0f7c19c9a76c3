import FactorySync.Parse.Basic

/-!
# Names and literals

The leaves of the grammar: identifiers, literals, names of properties and dotted names.
-/

namespace FactorySync
namespace Parser

/-- Consumes the current token as an identifier. -/
def identifierHere : Parser Node := do
  let t ← token
  advance
  return { kind := .identifier, span := t.span, detail := .identifier t.value }

/-- An identifier put in where there is none. -/
def missingIdentifier : Parser Node := missing .identifier (.identifier "")

/-- An identifier where `test` tells which tokens may be one. -/
def identifierIf (test : Kind → Bool) : Parser Node := do
  if test (← kind) then identifierHere
  else
    note .identifierExpected Problem.identifierExpected_isError
    missingIdentifier

/-- An identifier that is declared or used. Contextual words count, reserved words do not. -/
def identifier : Parser Node := identifierIf Kind.isName

/-- An identifier in a role, if one is here. -/
def optionalName (role : Role) : Parser (List Node) := do
  if (← kind).isName then return [(← identifier).inRole role]
  else return []

/-- A name after a dot or of a property, where any word will do. -/
def propertyWord : Parser Node := identifierIf Kind.isPropertyWord

def stringLiteral : Parser Node := do
  let t ← token
  advance
  return { kind := .stringLiteral, span := t.span, detail := .string t.value t.flags.singleQuoted }

/-- A literal that keeps its source text. -/
def sourceLiteral : Parser Node := do
  let t ← token
  advance
  return { kind := t.kind, span := t.span, detail := .literal (String.ofList t.source) }

/-- A template without substitutions, which keeps its value. -/
def plainTemplate : Parser Node := do
  let t ← token
  advance
  return { kind := t.kind, span := t.span, detail := .literal t.value }

/-- The string that names a module. -/
def moduleSpecifier : Parser Node := do
  if (← kind) = .stringLiteral then stringLiteral
  else
    note .stringExpected rfl
    missing .stringLiteral (.string "" false)

/-- The name of a property: a word, a string, a number, or an expression in brackets. -/
def propertyName : Parser Node := do
  match ← kind with
  | .stringLiteral => stringLiteral
  | .numericLiteral | .bigIntLiteral => sourceLiteral
  | .openBracket =>
    let start ← here
    advance
    let expression ← need .assignment
    require .closeBracket
    node .computedPropertyName start [expression.inRole .expression]
  | _ => propertyWord

/-- A name, or several with dots between them. -/
def entityName : Parser Node := do
  let start ← here
  let first ← identifier
  loop (fun left => do
    if ← accept .dot then
      let right ← propertyWord
      return .inl (← node .qualifiedName start [left.inRole .left, right.inRole .right])
    else return .inr left) first

end Parser
end FactorySync
