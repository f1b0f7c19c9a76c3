import FactorySync.Parse.Signatures

/-!
# Types

Types from the loosest to the tightest: conditional types, unions, intersections, operators such as
`keyof`, and postfix brackets. Function types may stand wherever a member of a union may.
-/

namespace FactorySync
namespace Parser

open Parse

/-! ## Members of interfaces and type literals -/

/-- Whether the bracket at hand opens `[key: K]` and not a computed name. -/
def isIndexSignature : Parser Bool :=
  lookAhead do
    advance
    if (← kind).isPropertyWord then
      advance
      return (← kind) == .colon
    else return false

def indexSignature (start : Nat) (modifiers : Modifiers) : Parser Node := do
  require .openBracket
  let parameters ← commaList Kind.endsBrackets parameter
  require .closeBracket
  let type ← declaredType
  return { ← node .indexSignature start (parameters.map (·.inRole .parameters) ++ type) with
    modifiers }

/-- A signature without a name. -/
def bareSignature (k : Kind) (start : Nat) : Parser Node := do
  let (lists, parts) ← signature
  return { ← node k start parts with lists }

/-- A property or method. `get` and `set` in front of a method's name are passed over. -/
def namedMember (start : Nat) (modifiers : Modifiers) : Parser Node := do
  let first ← kind
  skipIf ((first == .getKeyword || first == .setKeyword) && (← nextIs Kind.beginsPropertyName))
  let name := (← propertyName).inRole .name
  let question ← keepIf .question .question
  let next ← kind
  if next = .openParen ∨ next = .lessThan then
    let (lists, parts) ← signature
    return { ← node .methodSignature start (name :: parts) with
      modifiers, lists, marks := question }
  else
    let type ← declaredType
    return { ← node .propertySignature start (name :: type) with modifiers, marks := question }

def typeMember : Parser Node := do
  let start ← here
  let opensSignature (k : Kind) : Bool := k == .openParen || k == .lessThan
  let first ← kind
  if opensSignature first then bareSignature .callSignature start
  else if first == .newKeyword && (← nextIs opensSignature) then
    advance
    bareSignature .constructSignature start
  else
    let modifiers ← modifiers
    if (← kind) == .openBracket && (← isIndexSignature) then indexSignature start modifiers
    else namedMember start modifiers

/-- Members in braces, each with an optional `;` or `,` after it. -/
def typeMembers : Parser (List Node) := do
  require .openBrace
  let members ← manyWhile (return !(← kind).endsBlock) do
    let start ← here
    let member ← typeMember
    let next ← kind
    if next = .semicolon ∨ next = .comma then advance
    else if (← here) = start then
      note .unexpectedToken Problem.unexpectedToken_isError
      advance
    return member
  require .closeBrace
  return members.map (·.inRole .members)

/-! ## Function types -/

/-- Passes over what a parameter begins with. Tells whether it was there. -/
def skipParameterStart : Parser Bool := do
  let _ ← modifiers
  let first ← kind
  if first.isName || first == .thisKeyword then
    advance
    return true
  else if first = .openBrace ∨ first = .openBracket then
    let before ← noteCount
    let _ ← need .bindingName
    return (← noteCount) == before
  else return false

/-- Whether the parenthesis at hand can only open the parameters of a function type. -/
def opensFunctionType : Parser Bool :=
  lookAhead do
    advance
    let first ← kind
    if first = .closeParen ∨ first = .dotDotDot then return true
    else if ← skipParameterStart then
      match ← kind with
      | .colon | .comma | .question | .equals => return true
      | .closeParen =>
        advance
        return (← kind) == .equalsGreaterThan
      | _ => return false
    else return false

def beginsFunctionType : Parser Bool := do
  match ← kind with
  | .lessThan | .newKeyword => return true
  | .abstractKeyword => nextIs (· == .newKeyword)
  | .openParen => opensFunctionType
  | _ => return false

/-- A function type, or with `new` a constructor type. -/
def functionType : Parser Node := do
  let start ← here
  let isAbstract ← accept .abstractKeyword
  let isConstructor ← accept .newKeyword
  let (lists, typeParameters) ← typeParameters
  let parameters ← parameterList
  require .equalsGreaterThan
  let result := (← typeOrPredicate).inRole .returnType
  let k := if isConstructor then Kind.constructorType else .functionType
  return { ← node k start (typeParameters ++ parameters ++ [result]) with
    modifiers := { isAbstract }, lists }

/-! ## Types that begin with their own token -/

/-- Type arguments if they begin here, on the line of what they belong to. -/
def typeArgumentsOnLine : Parser (List Role × List Node) := do
  if ← afterLineBreak then return ([], []) else optionalTypeArguments

/-- A type given by a dotted name, with its arguments on the same line. -/
def namedType (k : Kind) (role : Role) (start : Nat) : Parser Node := do
  let name ← entityName
  let (lists, arguments) ← typeArgumentsOnLine
  return { ← node k start (name.inRole role :: arguments) with lists }

/-- Whether the brace at hand opens `{ [K in T]: … }`. -/
def isMappedType : Parser Bool :=
  lookAhead do
    advance
    let first ← kind
    if first = .plus ∨ first = .minus then
      advance
      return (← kind) == .readonlyKeyword
    else
      if first = .readonlyKeyword then advance
      if ← accept .openBracket then
        if (← kind).isPropertyWord then
          advance
          return (← kind) == .inKeyword
      return false

/-- A word such as `readonly`, perhaps with a sign in front. The first token is kept. -/
def signed (role : MarkRole) (word : Kind) : Parser (List Mark) := do
  let first ← kind
  if first = word then return [← keep role]
  else if first = .plus ∨ first = .minus then
    let sign ← keep role
    require word
    return [sign]
  else return []

def mappedType : Parser Node := do
  let start ← here
  require .openBrace
  let readonly ← signed .readonly .readonlyKeyword
  require .openBracket
  let parameterStart ← here
  let name ← identifier
  require .inKeyword
  let constraint ← need .type
  let parameter ← node .typeParameter parameterStart
    [name.inRole .name, constraint.inRole .constraint]
  let nameType ← afterToken .asKeyword .nameType (need .type)
  require .closeBracket
  let question ← signed .question .question
  let type ← afterToken .colon .typeNode (need .type)
  let next ← kind
  skipIf (next == .semicolon || next == .comma)
  require .closeBrace
  return { ← node .mappedType start (parameter.inRole .typeParameter :: nameType ++ type) with
    marks := readonly ++ question }

/-- Whether a member of a tuple type is named, as in `...rest?: T`. -/
def isNamedTupleMember : Parser Bool :=
  lookAhead do
    let _ ← accept .dotDotDot
    if (← kind).isPropertyWord then
      advance
      let _ ← accept .question
      return (← kind) == .colon
    else return false

def tupleMember : Parser Node := do
  let start ← here
  if ← isNamedTupleMember then
    let rest ← keepIf .dotDotDot .dotDotDot
    let name ← propertyWord
    let question ← keepIf .question .question
    require .colon
    let type ← need .type
    return { ← node .namedTupleMember start [name.inRole .name, type.inRole .typeNode] with
      marks := rest ++ question }
  else if ← accept .dotDotDot then
    let type ← need .type
    node .restType start [type.inRole .typeNode]
  else
    let type ← need .type
    if ← accept .question then node .optionalType start [type.inRole .typeNode]
    else return type

def tupleType : Parser Node := do
  let start ← here
  require .openBracket
  let elements ← commaList Kind.endsBrackets tupleMember
  require .closeBracket
  node .tupleType start (elements.map (·.inRole .elements))

/-- The type of a literal. -/
def literalType (start : Nat) (literal : Parser Node) : Parser Node := do
  node .literalType start [(← literal).inRole .literal]

/-- A number with a minus sign. -/
def negativeLiteral (start : Nat) : Parser Node := do
  advance
  let operand ← sourceLiteral
  return { ← node .prefixUnaryExpression start [operand.inRole .operand] with
    detail := .operator .minus }

def primaryType : Parser Node := do
  let start ← here
  let first ← kind
  if first.isTypeWord then tokenNode
  else
    match first with
    | .typeOfKeyword =>
      advance
      namedType .typeQuery .exprName start
    | .openBrace =>
      if ← isMappedType then mappedType
      else
        let members ← typeMembers
        node .typeLiteral start members
    | .openBracket => tupleType
    | .openParen =>
      advance
      let type ← need .type
      require .closeParen
      node .parenthesizedType start [type.inRole .typeNode]
    | .stringLiteral => literalType start stringLiteral
    | .numericLiteral | .bigIntLiteral => literalType start sourceLiteral
    | .noSubstitutionTemplateLiteral => literalType start plainTemplate
    | .trueKeyword | .falseKeyword => literalType start tokenNode
    | _ =>
      if first == .minus && (← nextIs fun k => k == .numericLiteral || k == .bigIntLiteral) then
        literalType start (negativeLiteral start)
      else if first.isName then namedType .typeReference .typeName start
      else
        note .typeExpected rfl
        missing .unknown

/-! ## Operators -/

/-- Array types and indexed types. The brackets must open on the line where the type so far ends. -/
def postfixType : Parser Node := do
  let start ← here
  let first ← primaryType
  loop (fun type => do
    if !(← afterLineBreak) && (← kind) == .openBracket then
      advance
      if ← accept .closeBracket then
        return .inl (← node .arrayType start [type.inRole .elementType])
      else
        let index ← need .type
        require .closeBracket
        return .inl (← node .indexedAccessType start
          [type.inRole .objectType, index.inRole .indexType])
    else return .inr type) first

/-- The constraint of `infer U extends T`. Outside the operand of an `extends` it is none if a `?`
follows, because then the `extends` begins a conditional type. -/
def inferConstraint : Parser (List Node) := do
  if (← kind) = .extendsKeyword then
    let inExtends ← view (·.inExtends)
    let found ← attempt do
      advance
      let type ← need .boundType
      if inExtends || (← kind) != .question then return some type else return none
    return (found.map (·.inRole .constraint)).toList
  else return []

/-- A type with operators in front of it. -/
def typeOperand : Parser Node := do
  let start ← here
  let first ← kind
  match first with
  | .keyOfKeyword | .uniqueKeyword | .readonlyKeyword =>
    advance
    let type ← need .typeOperand
    return { ← node .typeOperator start [type.inRole .typeNode] with detail := .operator first }
  | .inferKeyword =>
    advance
    let parameterStart ← here
    let name ← identifier
    let constraint ← inferConstraint
    let parameter ← node .typeParameter parameterStart (name.inRole .name :: constraint)
    node .inferType start [parameter.inRole .typeParameter]
  | _ => postfixType

/-- Members joined by an operator, which may also stand in front of the first. A single member
stands for itself. -/
def joinedTypes (operator joined : Kind) (member : Parser Node) : Parser Node := do
  let start ← here
  let _ ← accept operator
  let member : Parser Node := do
    if ← beginsFunctionType then functionType else member
  let first ← member
  if (← kind) = operator then
    let others ← manyWhile (accept operator) member
    node joined start ((first :: others).map (·.inRole .types))
  else return first

def intersectionType : Parser Node :=
  joinedTypes .ampersand .intersectionType (need .typeOperand)

def unionType : Parser Node := joinedTypes .bar .unionType intersectionType

/-- Consumes the `extends` of a conditional type if it comes next on the line. -/
def acceptExtends : Parser Bool := do
  let mayExtend := !(← view (·.inExtends)) && !(← afterLineBreak)
  if mayExtend then accept .extendsKeyword else return false

/-- A function type, a conditional type, or a union. -/
def wholeType : Parser Node := do
  if ← beginsFunctionType then functionType
  else
    let start ← here
    let type ← unionType
    if ← acceptExtends then
      let bound ← need .boundType
      require .question
      let whenTrue ← need .type
      require .colon
      let whenFalse ← need .type
      node .conditionalType start [type.inRole .checkType, bound.inRole .extendsType,
        whenTrue.inRole .trueType, whenFalse.inRole .falseType]
    else return type

/-- A type one level deeper, saying whether it stands after the `extends` of a conditional type. -/
def typeAt (inExtends : Bool) : Parser Node := withExtends inExtends (deeper wholeType)

end Parser
end FactorySync
