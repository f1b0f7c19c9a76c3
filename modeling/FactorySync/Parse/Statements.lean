import FactorySync.Parse.Declarations
import FactorySync.Parse.Modules

/-!
# Statements
-/

namespace FactorySync
namespace Parser

/-! ## Control flow -/

/-- An expression in parentheses after a keyword. -/
def head (word : Kind) : Parser Node := do
  require word
  require .openParen
  let value ← expression
  require .closeParen
  return value.inRole .expression

def ifStatement : Parser Node := do
  let start ← here
  let condition ← head .ifKeyword
  let whenTrue ← need .statement
  let whenFalse ← afterToken .elseKeyword .elseStatement (need .statement)
  node .ifStatement start (condition :: whenTrue.inRole .thenStatement :: whenFalse)

/-- An expression, unless the statement ends here. -/
def optionalValue : Parser (List Node) := do
  if ← atStatementEnd then return [] else return [(← expression).inRole .expression]

def returnStatement : Parser Node := do
  let start ← here
  require .returnKeyword
  let value ← optionalValue
  endStatement
  node .returnStatement start value

def throwStatement : Parser Node := do
  let start ← here
  require .throwKeyword
  let value ← expression
  endStatement
  node .throwStatement start [value.inRole .expression]

/-- The value of a `case`; a `default` has none. -/
def caseValue (isCase : Bool) : Parser (List Node) := do
  if isCase then return [(← expression).inRole .expression] else return []

/-- A `case` or `default` of a `switch`. -/
def clause : Parser Node := do
  let start ← here
  let isCase := (← kind) == .caseKeyword
  advance
  let value ← caseValue isCase
  require .colon
  let statements ← statements Kind.endsClause
  node (if isCase then .caseClause else .defaultClause) start (value ++ statements)

def switchStatement : Parser Node := do
  let start ← here
  let value ← head .switchKeyword
  require .openBrace
  let isClause : Parser Bool := do
    let k ← kind
    return k == .caseKeyword || k == .defaultKeyword
  let clauses ← manyWhile isClause clause
  require .closeBrace
  node .switchStatement start (value :: clauses.map (·.inRole .clauses))

/-- The label that a jump leads to, if one follows on the line. -/
def optionalLabel : Parser (List Node) := do
  if ← atStatementEnd then return [] else optionalName .label

/-- `break` or `continue`, perhaps with a label. -/
def jumpStatement : Parser Node := do
  let start ← here
  let k := if (← kind) = .breakKeyword then Kind.breakStatement else .continueStatement
  advance
  let label ← optionalLabel
  endStatement
  node k start label

/-- An expression as a statement. Labels carry no meaning and are passed over. -/
def expressionStatement : Parser Node := do
  let mayBeLabel := (← kind).isName
  if mayBeLabel && (← nextIs (· == .colon)) then
    advance
    advance
    need .statement
  else
    let start ← here
    let value ← expression
    endStatement
    node .expressionStatement start [value.inRole .expression]

/-! ## Declarations -/

/-- A declaration with its modifiers. -/
def declaration : Parser Node := do
  let start ← here
  let modifiers ← modifiers
  match ← kind with
  | .varKeyword | .letKeyword | .constKeyword => variableStatement start modifiers
  | .functionKeyword => functionDeclaration start modifiers
  | .interfaceKeyword => interfaceDeclaration start modifiers
  | .typeKeyword => typeAliasDeclaration start modifiers
  | .enumKeyword => enumDeclaration start modifiers
  | .classKeyword | .namespaceKeyword | .moduleKeyword | .globalKeyword | .importKeyword
  | .at => unsupportedStatement start modifiers
  | _ =>
    note .statementExpected Problem.statementExpected_isError
    expressionStatement

/-- Whether what follows `export default` is a declaration. -/
def isDefaultDeclaration : Parser Bool :=
  lookAhead do
    advance
    advance
    match ← kind with
    | .functionKeyword | .classKeyword | .interfaceKeyword | .abstractKeyword => return true
    | .asyncKeyword => nextOnLineIs (· == .functionKeyword)
    | _ => return false

/-- Whether `export type` is followed by names or by all names. -/
def isTypeExport : Parser Bool :=
  lookAhead do
    advance
    nextIs fun k => k == .openBrace || k == .asterisk

/-- A statement that begins with `export`. -/
def exportStatement : Parser Node := do
  let start ← here
  let next ← lookAhead do
    advance
    kind
  match next with
  | .openBrace | .asterisk => exportDeclaration start
  | .typeKeyword => if ← isTypeExport then exportDeclaration start else declaration
  | .equals => exportAssignment start
  | .defaultKeyword => if ← isDefaultDeclaration then declaration else exportAssignment start
  | .asKeyword | .importKeyword => unsupportedStatement start {}
  | _ => declaration

/-- Whether the contextual word at hand begins a declaration and not an expression. -/
def beginsDeclaration : Parser Bool := do
  let next (test : Kind → Bool) : Parser Bool := nextOnLineIs test
  match ← kind with
  | .interfaceKeyword | .typeKeyword => next Kind.isName
  | .namespaceKeyword | .moduleKeyword => next fun k => k.isName || k == .stringLiteral
  | .globalKeyword => next (· == .openBrace)
  | .asyncKeyword => next (· == .functionKeyword)
  | .declareKeyword | .abstractKeyword => next Kind.isPropertyWord
  | _ => return false

/-- A statement that begins with `import`. -/
def importStatement : Parser Node := do
  let start ← here
  if ← nextIs fun k => k == .openParen || k == .dot then expressionStatement
  else if ← isImportEquals then unsupportedStatement start {}
  else importDeclaration

/-! ## Any statement -/

/-- What the name bound by `let` begins with. -/
def beginsBinding (k : Kind) : Bool := k.isName || k == .openBrace || k == .openBracket

def statement : Parser Node := do
  let start ← here
  match ← kind with
  | .semicolon => tokenNode
  | .openBrace => block
  | .varKeyword => variableStatement start {}
  | .letKeyword =>
    if ← nextIs beginsBinding then variableStatement start {} else expressionStatement
  | .constKeyword =>
    if ← nextIs (· == .enumKeyword) then declaration else variableStatement start {}
  | .functionKeyword => functionDeclaration start {}
  | .enumKeyword => enumDeclaration start {}
  | .ifKeyword => ifStatement
  | .returnKeyword => returnStatement
  | .throwKeyword => throwStatement
  | .switchKeyword => switchStatement
  | .breakKeyword | .continueKeyword => jumpStatement
  | .importKeyword => importStatement
  | .exportKeyword => exportStatement
  | .classKeyword | .forKeyword | .whileKeyword | .doKeyword | .tryKeyword | .withKeyword
  | .debuggerKeyword | .at => unsupportedStatement start {}
  | _ => if ← beginsDeclaration then declaration else expressionStatement

end Parser
end FactorySync
