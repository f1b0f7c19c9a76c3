import FactorySync.Parse.Expressions

/-!
# Imports and exports
-/

namespace FactorySync
namespace Parser

/-- Passes over one token between the braces of attributes, of which `depth` are open. -/
def attributesRound (depth : Nat) : Parser (Nat ⊕ Unit) := do
  match ← kind with
  | .endOfFile => return .inr ()
  | .openBrace =>
    advance
    return .inl (depth + 1)
  | .closeBrace =>
    let depth ← countDown depth
    advance
    if depth = 0 then return .inr () else return .inl depth
  | _ =>
    advance
    return .inl depth

/-- Passes over `with \x7b … \x7d` or `assert \x7b … \x7d` after a module's name. -/
def skipImportAttributes : Parser Unit := do
  let t ← token
  let isAttributes := (t.kind == .withKeyword || (t.kind == .identifier && t.value == "assert")) &&
    !t.flags.afterLineBreak
  if isAttributes then
    advance
    if (← kind) = .openBrace then loop attributesRound 0

/-- The `type` in `\x7b type A \x7d`, but not in `\x7b type \x7d` or `\x7b type as A \x7d`. -/
def specifierType : Parser Bool := do
  let isWord := (← kind) == .typeKeyword
  if isWord && (← nextIs fun k => k.isPropertyWord && k != .asKeyword) then
    advance
    return true
  else return false

/-- `A` or `A as B`, where `localName` reads the name after `as`. -/
def specifiedNames (localName : Parser Node) : Parser (List Node) := do
  let first ← propertyWord
  if ← accept .asKeyword then
    let name ← localName
    return [first.inRole .propertyName, name.inRole .name]
  else return [first.inRole .name]

/-- One item in the braces of an import or export, which may be marked as a type. -/
def moduleItem (k : Kind) (localName : Parser Node) : Parser Node := do
  let start ← here
  let isTypeOnly ← specifierType
  let names ← specifiedNames localName
  return { ← node k start names with detail := .typeOnly isTypeOnly }

/-- Names in braces. -/
def moduleItems (list item : Kind) (localName : Parser Node) : Parser Node := do
  let start ← here
  require .openBrace
  let items ← commaList Kind.endsBlock (moduleItem item localName)
  require .closeBrace
  node list start (items.map (·.inRole .elements))

def namedImports : Parser Node := moduleItems .namedImports .importSpecifier identifier

def namedExports : Parser Node := moduleItems .namedExports .exportSpecifier propertyWord

/-- `* as name`. -/
def namespaceImport : Parser Node := do
  let start ← here
  advance
  require .asKeyword
  let name ← identifier
  node .namespaceImport start [name.inRole .name]

/-- Whether the `type` at hand makes the whole import a type import. `import type from "m"` imports
a default named `type`. -/
def isTypeImport : Parser Bool := do
  if (← kind) = .typeKeyword then
    lookAhead do
      advance
      match ← kind with
      | .openBrace | .asterisk => return true
      | .fromKeyword => nextIs (· == .fromKeyword)
      | k => return k.isName
  else return false

/-- A namespace or names in braces, which are due here. -/
def namedBindings : Parser (List Node) := do
  match ← kind with
  | .asterisk => return [(← namespaceImport).inRole .namedBindings]
  | .openBrace => return [(← namedImports).inRole .namedBindings]
  | _ =>
    note (.expected "\x7b") (Problem.expected_isError _)
    return []

/-- What an import binds beside a default name, if it has one. Only behind a name is there a comma. -/
def otherBindings (hasName : Bool) : Parser (List Node) := do
  if hasName then
    if ← accept .comma then namedBindings else return []
  else namedBindings

/-- What an import binds: a default name, a namespace or names in braces. -/
def importClause : Parser Node := do
  let start ← here
  let isTypeOnly ← isTypeImport
  skipIf isTypeOnly
  let name ← optionalName .name
  let bindings ← otherBindings !name.isEmpty
  return { ← node .importClause start (name ++ bindings) with detail := .typeOnly isTypeOnly }

/-- What is imported, unless the module is only run. -/
def optionalClause : Parser (List Node) := do
  if (← kind) = .stringLiteral then return []
  else
    let clause ← importClause
    require .fromKeyword
    return [clause.inRole .importClause]

def importDeclaration : Parser Node := do
  let start ← here
  require .importKeyword
  let clause ← optionalClause
  let specifier ← moduleSpecifier
  skipImportAttributes
  endStatement
  node .importDeclaration start (clause ++ [specifier.inRole .moduleSpecifier])

/-- Whether the `import` at hand begins `import A = …`. -/
def isImportEquals : Parser Bool :=
  lookAhead do
    advance
    let isType ← accept .typeKeyword
    if isType && (← kind) == .equals then return true
    else if (← kind).isName then
      advance
      return (← kind) == .equals
    else return false

/-- What is exported: all names of a module, or names in braces. -/
def exportParts : Parser (List Node) := do
  if ← accept .asterisk then
    let clause ← afterToken .asKeyword .exportClause propertyWord
    require .fromKeyword
    let specifier ← moduleSpecifier
    return clause ++ [specifier.inRole .moduleSpecifier]
  else
    let clause ← namedExports
    let specifier ← afterToken .fromKeyword .moduleSpecifier moduleSpecifier
    return clause.inRole .exportClause :: specifier

/-- `export * from "m"`, `export * as a from "m"` or `export \x7b a \x7d`, perhaps with a module. -/
def exportDeclaration (start : Nat) : Parser Node := do
  require .exportKeyword
  let isTypeOnly ← accept .typeKeyword
  let parts ← exportParts
  skipImportAttributes
  endStatement
  return { ← node .exportDeclaration start parts with detail := .typeOnly isTypeOnly }

/-- `export = value` or `export default value`. -/
def exportAssignment (start : Nat) : Parser Node := do
  require .exportKeyword
  let isEquals ← accept .equals
  requireUnless isEquals .defaultKeyword
  let value ← need .assignment
  endStatement
  return { ← node .exportAssignment start [value.inRole .expression] with
    detail := .exportEquals isEquals }

end Parser
end FactorySync
