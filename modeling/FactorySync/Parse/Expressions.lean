import FactorySync.Parse.ObjectLiteral

/-!
# Expressions

Expressions from the loosest to the tightest: commas, assignments and arrow functions, the
conditional operator, binary operators by strength, unary operators, chains of calls and accesses,
and what begins with its own token.
-/

namespace FactorySync

/-- How tightly a binary operator binds. `>=`, `>>` and their like are met here only after a `>` has
been read anew. -/
def Kind.strength? : Kind → Option Nat
  | .questionQuestion => some 1
  | .barBar => some 2
  | .ampersandAmpersand => some 3
  | .bar => some 4
  | .caret => some 5
  | .ampersand => some 6
  | .equalsEquals | .exclamationEquals | .equalsEqualsEquals | .exclamationEqualsEquals => some 7
  | .lessThan | .greaterThan | .lessThanEquals | .greaterThanEquals | .instanceOfKeyword
  | .inKeyword | .asKeyword | .satisfiesKeyword => some 8
  | .lessThanLessThan | .greaterThanGreaterThan | .greaterThanGreaterThanGreaterThan => some 9
  | .plus | .minus => some 10
  | .asterisk | .slash | .percent => some 11
  | .asteriskAsterisk => some 12
  | _ => none

/-- What an expression may begin with. -/
def Kind.beginsExpression (k : Kind) : Bool :=
  k.isName ||
    match k with
    | .numericLiteral | .bigIntLiteral | .stringLiteral | .noSubstitutionTemplateLiteral
    | .templateHead | .openParen | .openBracket | .openBrace | .plus | .minus | .tilde
    | .exclamation | .plusPlus | .minusMinus | .lessThan | .slash | .slashEquals | .newKeyword
    | .deleteKeyword | .typeOfKeyword | .voidKeyword | .superKeyword | .thisKeyword | .trueKeyword
    | .falseKeyword | .nullKeyword | .functionKeyword | .importKeyword => true
    | _ => false

namespace Parser

/-! ## Commas -/

/-- Expressions joined by commas, to the left. -/
def expression : Parser Node := do
  let start ← here
  let first ← need .assignment
  loop (fun left => do
    if (← kind) = .comma then
      let mark ← keep .operator
      let right ← need .assignment
      let joined ← node .binaryExpression start [left.inRole .left, right.inRole .right]
      return .inl { joined with marks := [mark] }
    else return .inr left) first

/-! ## What begins with its own token -/

/-- The pieces of a template after its head. Without a closing brace the expression is dropped. -/
def templateSpans : Parser (List Node) :=
  loop (fun spans => do
    let start ← here
    let value ← expression
    if (← kind) = .closeBrace then
      rescan .template
      let t ← token
      advance
      let span ← node .templateSpan start [value.inRole .expression]
      let spans := { span with detail := .templateSpan t.value } :: spans
      if t.kind = .templateMiddle then return .inl spans
      else return .inr spans.reverse
    else
      note (.expected "\x7d") (Problem.expected_isError _)
      return .inr spans.reverse) []

def templateExpression : Parser Node := do
  let t ← token
  advance
  let spans ← templateSpans
  return { ← node .templateExpression t.start (spans.map (·.inRole .templateSpans)) with
    detail := .templateHead t.value }

/-- An argument or array element, perhaps spread out. -/
def spreadable : Parser Node := do
  let start ← here
  if ← accept .dotDotDot then
    let value ← need .assignment
    node .spreadElement start [value.inRole .expression]
  else need .assignment

def arrayLiteral : Parser Node := do
  let start ← here
  require .openBracket
  let elements ← elementsWithHoles .omittedExpression spreadable
  require .closeBracket
  node .arrayLiteralExpression start (elements.map (·.inRole .elements))

def primary : Parser Node := do
  let start ← here
  let first ← kind
  match first with
  | .numericLiteral | .bigIntLiteral => sourceLiteral
  | .stringLiteral => stringLiteral
  | .noSubstitutionTemplateLiteral => plainTemplate
  | .templateHead => templateExpression
  | .slash | .slashEquals =>
    rescan .slash
    sourceLiteral
  | .thisKeyword | .superKeyword | .nullKeyword | .trueKeyword | .falseKeyword
  | .importKeyword => tokenNode
  | .openParen =>
    advance
    let value ← expression
    require .closeParen
    node .parenthesizedExpression start [value.inRole .expression]
  | .openBracket => arrayLiteral
  | .openBrace => objectLiteral
  | .functionKeyword => functionExpression false
  | _ =>
    if first == .asyncKeyword && (← nextOnLineIs (· == .functionKeyword)) then
      advance
      functionExpression true
    else if first.isName then identifierHere
    else
      note .expressionExpected rfl
      missing .unknown

/-! ## Chains of accesses and calls -/

/-- The flags of a link that `?.` may introduce. -/
def linkFlags (questionDot : List Mark) : NodeFlags := { optionalChain := !questionDot.isEmpty }

def argumentList : Parser (List Node) := do
  require .openParen
  let arguments ← commaList Kind.endsParens spreadable
  require .closeParen
  return arguments.map (·.inRole .arguments)

/-- `.name`, from the name on. -/
def propertyLink (target : Node) (questionDot : List Mark) : Parser Node := do
  let name ← propertyWord
  return { ← node .propertyAccessExpression target.span.start
      [target.inRole .expression, name.inRole .name] with
    flags := linkFlags questionDot, marks := questionDot }

/-- `[index]`. -/
def elementLink (target : Node) (questionDot : List Mark) : Parser Node := do
  require .openBracket
  let index ← expression
  require .closeBracket
  return { ← node .elementAccessExpression target.span.start
      [target.inRole .expression, index.inRole .argumentExpression] with
    flags := linkFlags questionDot, marks := questionDot }

/-- `(arguments)`, after type arguments that are read already. -/
def callLink (target : Node) (questionDot : List Mark) (typed : List Role × List Node) :
    Parser Node := do
  let arguments ← argumentList
  return { ← node .callExpression target.span.start
      (target.inRole .expression :: typed.2 ++ arguments) with
    flags := linkFlags questionDot, marks := questionDot, lists := typed.1 }

/-- Type arguments that can be read without a problem and satisfy `follow` at their end. -/
def soundTypeArguments (follow : Kind → Bool) : Parser (Option (List Role × List Node)) :=
  attempt do
    let before ← noteCount
    let arguments ← typeArguments
    if (← noteCount) == before && follow (← kind) then
      return some ([.typeArguments], arguments)
    else return none

/-- The link after a `?.`. -/
def optionalLink (target : Node) (allowCalls : Bool) : Parser Node := do
  let mark ← keep .questionDot
  let next ← kind
  if allowCalls && (next == .openParen || next == .lessThan) then
    let typed ← optionalTypeArguments
    callLink target [mark] typed
  else if next = .openBracket then elementLink target [mark]
  else propertyLink target [mark]

/-- The links of a chain, one after the other. In the callee of `new` calls do not count. -/
def chain (allowCalls : Bool) (first : Node) : Parser Node :=
  loop (fun target => do
    let next ← kind
    match next with
    | .dot =>
      advance
      return .inl (← propertyLink target [])
    | .questionDot => return .inl (← optionalLink target allowCalls)
    | .openBracket => return .inl (← elementLink target [])
    | .exclamation =>
      if ← afterLineBreak then return .inr target
      else
        advance
        return .inl (← node .nonNullExpression target.span.start [target.inRole .expression])
    | .openParen =>
      if allowCalls then return .inl (← callLink target [] ([], []))
      else return .inr target
    | .lessThan =>
      if allowCalls then
        match ← soundTypeArguments (· == .openParen) with
        | some typed => return .inl (← callLink target [] typed)
        | none => return .inr target
      else return .inr target
    | _ => return .inr target) first

/-- What a chain begins with. -/
def chainHead : Parser Node := do
  if (← kind) = .newKeyword then need .construction else primary

/-- The type arguments of a construction, if they can be read without a problem. -/
def constructionTypes : Parser (List Role × List Node) := do
  if (← kind) = .lessThan then return (← soundTypeArguments fun _ => true).getD ([], [])
  else return ([], [])

/-- The arguments of a construction, which may do without any. Tells whether they are there. -/
def optionalArguments : Parser (List Role × List Node) := do
  if (← kind) = .openParen then return ([.arguments], ← argumentList)
  else return ([], [])

/-- An expression that begins with `new`. -/
def construction : Parser Node := do
  let start ← here
  let word ← tokenNode
  if ← accept .dot then
    let name ← propertyWord
    node .propertyAccessExpression start [word.inRole .expression, name.inRole .name]
  else
    let callee ← chainHead
    let callee ← chain false callee
    let (typeLists, typeArguments) ← constructionTypes
    let (lists, arguments) ← optionalArguments
    return { ← node .newExpression start
        (callee.inRole .expression :: typeArguments ++ arguments) with
      lists := typeLists ++ lists }

def leftHandSide : Parser Node := do
  let first ← chainHead
  chain true first

/-! ## Operators -/

def prefixed (start : Nat) : Parser Node := do
  let operator ← kind
  advance
  let operand ← need .unary
  return { ← node .prefixUnaryExpression start [operand.inRole .operand] with
    detail := .operator operator }

/-- A type in angle brackets in front of an expression. -/
def typeAssertion (start : Nat) : Parser Node := do
  advance
  let type ← need .type
  require .greaterThan
  let value ← need .unary
  node .typeAssertionExpression start [type.inRole .typeNode, value.inRole .expression]

/-- An expression with `++` or `--` after it, if that stands on its line. -/
def postfixed (start : Nat) : Parser Node := do
  let operand ← leftHandSide
  let operator ← kind
  if (operator == .plusPlus || operator == .minusMinus) && !(← afterLineBreak) then
    advance
    return { ← node .postfixUnaryExpression start [operand.inRole .operand] with
      detail := .operator operator }
  else return operand

def unary : Parser Node := do
  let start ← here
  match ← kind with
  | .plus | .minus | .tilde | .exclamation | .plusPlus | .minusMinus | .typeOfKeyword
  | .voidKeyword | .deleteKeyword => prefixed start
  | .awaitKeyword =>
    if ← nextOnLineIs Kind.beginsExpression then prefixed start else postfixed start
  | .lessThan => typeAssertion start
  | _ => postfixed start

/-- Whether an operator of this kind and strength goes on with operands of at least strength
`least`. Only `**` may follow itself to the right. -/
def bindsTighter (operator : Kind) (strength least : Nat) : Bool :=
  if operator == .asteriskAsterisk then least ≤ strength else least < strength

/-- Operands joined by operators that bind tighter than `least`. -/
def binary (least : Nat) : Parser Node := do
  let start ← here
  let first ← need .unary
  loop (fun left => do
    rescan .greaterThan
    let operator ← kind
    match operator.strength? with
    | none => return .inr left
    | some strength =>
      if bindsTighter operator strength least then
        if operator = .asKeyword ∨ operator = .satisfiesKeyword then
          if ← afterLineBreak then return .inr left
          else
            advance
            let type ← need .type
            let k := if operator = .asKeyword then Kind.asExpression else .satisfiesExpression
            return .inl (← node k start [left.inRole .expression, type.inRole .typeNode])
        else
          let mark ← keep .operator
          let right ← need (.binary strength)
          let joined ← node .binaryExpression start [left.inRole .left, right.inRole .right]
          return .inl { joined with marks := [mark] }
      else return .inr left) first

def conditional : Parser Node := do
  let start ← here
  let condition ← need (.binary 0)
  if ← accept .question then
    let whenTrue ← need .assignment
    require .colon
    let whenFalse ← need .assignment
    node .conditionalExpression start [condition.inRole .condition, whenTrue.inRole .whenTrue,
      whenFalse.inRole .whenFalse]
  else return condition

/-- An arrow function, or a conditional expression with an assignment to it. -/
def assignment : Parser Node := do
  match ← arrowFunction with
  | some function => return function
  | none =>
    let start ← here
    let left ← conditional
    if (← kind).isAssignment then
      let mark ← keep .operator
      let right ← need .assignment
      let joined ← node .binaryExpression start [left.inRole .left, right.inRole .right]
      return { joined with marks := [mark] }
    else return left

end Parser
end FactorySync
