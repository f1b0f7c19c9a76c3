/-!
# Kinds

The kinds of tokens and of the nodes built from them, for the part of TypeScript the program reads.
Punctuation and keywords have a fixed spelling; `punctuationText?` and `wordText?` give it, and
`ofWord?` reads a keyword back. Reserved words never name anything; contextual words do so wherever
they have no meaning of their own.
-/

namespace FactorySync

inductive Kind where
  | unknown | endOfFile | numericLiteral | bigIntLiteral | stringLiteral
  | regularExpressionLiteral | noSubstitutionTemplateLiteral | templateHead | templateMiddle
  | templateTail
  -- punctuation
  | openBrace | closeBrace | openParen | closeParen | openBracket | closeBracket | dot
  | dotDotDot | semicolon | comma | questionDot | lessThan | greaterThan | lessThanEquals
  | greaterThanEquals | equalsEquals | exclamationEquals | equalsEqualsEquals
  | exclamationEqualsEquals | equalsGreaterThan | plus | minus | asterisk | asteriskAsterisk
  | slash | percent | plusPlus | minusMinus | lessThanLessThan | greaterThanGreaterThan
  | greaterThanGreaterThanGreaterThan | ampersand | bar | caret | exclamation | tilde
  | ampersandAmpersand | barBar | question | colon | at | questionQuestion | hash
  -- assignment operators
  | equals | plusEquals | minusEquals | asteriskEquals | slashEquals | percentEquals
  | asteriskAsteriskEquals | lessThanLessThanEquals | greaterThanGreaterThanEquals
  | greaterThanGreaterThanGreaterThanEquals | ampersandEquals | barEquals | caretEquals
  | barBarEquals | ampersandAmpersandEquals | questionQuestionEquals
  -- names
  | identifier
  -- reserved words
  | breakKeyword | caseKeyword | catchKeyword | classKeyword | constKeyword | continueKeyword
  | debuggerKeyword | defaultKeyword | deleteKeyword | doKeyword | elseKeyword | enumKeyword
  | exportKeyword | extendsKeyword | falseKeyword | finallyKeyword | forKeyword | functionKeyword
  | ifKeyword | importKeyword | inKeyword | instanceOfKeyword | newKeyword | nullKeyword
  | returnKeyword | superKeyword | switchKeyword | thisKeyword | throwKeyword | trueKeyword
  | tryKeyword | typeOfKeyword | varKeyword | voidKeyword | whileKeyword | withKeyword
  -- contextual words
  | abstractKeyword | accessorKeyword | anyKeyword | asKeyword | assertsKeyword | asyncKeyword
  | awaitKeyword | bigIntKeyword | booleanKeyword | constructorKeyword | declareKeyword
  | fromKeyword | getKeyword | globalKeyword | implementsKeyword | inferKeyword
  | interfaceKeyword | isKeyword | keyOfKeyword | letKeyword | moduleKeyword | namespaceKeyword
  | neverKeyword | numberKeyword | objectKeyword | ofKeyword | overrideKeyword | packageKeyword
  | privateKeyword | protectedKeyword | publicKeyword | readonlyKeyword | satisfiesKeyword
  | setKeyword | staticKeyword | stringKeyword | symbolKeyword | typeKeyword | undefinedKeyword
  | uniqueKeyword | unknownKeyword | yieldKeyword
  -- nodes
  | qualifiedName | computedPropertyName | typeParameter | parameter | propertySignature
  | methodSignature | callSignature | constructSignature | indexSignature | typePredicate
  | typeReference | functionType | constructorType | typeQuery | typeLiteral | arrayType
  | tupleType | namedTupleMember | optionalType | restType | unionType | intersectionType
  | conditionalType | inferType | parenthesizedType | typeOperator | indexedAccessType
  | mappedType | literalType | objectBindingPattern | arrayBindingPattern | bindingElement
  | arrayLiteralExpression | objectLiteralExpression | propertyAccessExpression
  | elementAccessExpression | callExpression | newExpression | parenthesizedExpression
  | functionExpression | arrowFunction | prefixUnaryExpression | postfixUnaryExpression
  | binaryExpression | conditionalExpression | templateExpression | templateSpan | spreadElement
  | omittedExpression | asExpression | satisfiesExpression | typeAssertionExpression
  | nonNullExpression | expressionWithTypeArguments | propertyAssignment
  | shorthandPropertyAssignment | spreadAssignment | methodDeclaration | getAccessor
  | setAccessor | block | variableStatement | expressionStatement | ifStatement | returnStatement
  | breakStatement | continueStatement | throwStatement | switchStatement | caseClause
  | defaultClause | variableDeclaration | variableDeclarationList | functionDeclaration
  | interfaceDeclaration | typeAliasDeclaration | enumDeclaration | enumMember | heritageClause
  | importDeclaration | importClause | namespaceImport | namedImports | importSpecifier
  | exportDeclaration | namedExports | exportSpecifier | exportAssignment | unsupportedStatement
  | sourceFile | hole
  deriving Repr, DecidableEq, Inhabited

namespace Kind

/-- The spelling of a reserved word. -/
def reservedText? : Kind → Option String
  | .breakKeyword => some "break"
  | .caseKeyword => some "case"
  | .catchKeyword => some "catch"
  | .classKeyword => some "class"
  | .constKeyword => some "const"
  | .continueKeyword => some "continue"
  | .debuggerKeyword => some "debugger"
  | .defaultKeyword => some "default"
  | .deleteKeyword => some "delete"
  | .doKeyword => some "do"
  | .elseKeyword => some "else"
  | .enumKeyword => some "enum"
  | .exportKeyword => some "export"
  | .extendsKeyword => some "extends"
  | .falseKeyword => some "false"
  | .finallyKeyword => some "finally"
  | .forKeyword => some "for"
  | .functionKeyword => some "function"
  | .ifKeyword => some "if"
  | .importKeyword => some "import"
  | .inKeyword => some "in"
  | .instanceOfKeyword => some "instanceof"
  | .newKeyword => some "new"
  | .nullKeyword => some "null"
  | .returnKeyword => some "return"
  | .superKeyword => some "super"
  | .switchKeyword => some "switch"
  | .thisKeyword => some "this"
  | .throwKeyword => some "throw"
  | .trueKeyword => some "true"
  | .tryKeyword => some "try"
  | .typeOfKeyword => some "typeof"
  | .varKeyword => some "var"
  | .voidKeyword => some "void"
  | .whileKeyword => some "while"
  | .withKeyword => some "with"
  | _ => none

/-- The spelling of a contextual word. -/
def contextualText? : Kind → Option String
  | .abstractKeyword => some "abstract"
  | .accessorKeyword => some "accessor"
  | .anyKeyword => some "any"
  | .asKeyword => some "as"
  | .assertsKeyword => some "asserts"
  | .asyncKeyword => some "async"
  | .awaitKeyword => some "await"
  | .bigIntKeyword => some "bigint"
  | .booleanKeyword => some "boolean"
  | .constructorKeyword => some "constructor"
  | .declareKeyword => some "declare"
  | .fromKeyword => some "from"
  | .getKeyword => some "get"
  | .globalKeyword => some "global"
  | .implementsKeyword => some "implements"
  | .inferKeyword => some "infer"
  | .interfaceKeyword => some "interface"
  | .isKeyword => some "is"
  | .keyOfKeyword => some "keyof"
  | .letKeyword => some "let"
  | .moduleKeyword => some "module"
  | .namespaceKeyword => some "namespace"
  | .neverKeyword => some "never"
  | .numberKeyword => some "number"
  | .objectKeyword => some "object"
  | .ofKeyword => some "of"
  | .overrideKeyword => some "override"
  | .packageKeyword => some "package"
  | .privateKeyword => some "private"
  | .protectedKeyword => some "protected"
  | .publicKeyword => some "public"
  | .readonlyKeyword => some "readonly"
  | .satisfiesKeyword => some "satisfies"
  | .setKeyword => some "set"
  | .staticKeyword => some "static"
  | .stringKeyword => some "string"
  | .symbolKeyword => some "symbol"
  | .typeKeyword => some "type"
  | .undefinedKeyword => some "undefined"
  | .uniqueKeyword => some "unique"
  | .unknownKeyword => some "unknown"
  | .yieldKeyword => some "yield"
  | _ => none

/-- The spelling of an assignment operator. -/
def assignmentText? : Kind → Option String
  | .equals => some "="
  | .plusEquals => some "+="
  | .minusEquals => some "-="
  | .asteriskEquals => some "*="
  | .slashEquals => some "/="
  | .percentEquals => some "%="
  | .asteriskAsteriskEquals => some "**="
  | .lessThanLessThanEquals => some "<<="
  | .greaterThanGreaterThanEquals => some ">>="
  | .greaterThanGreaterThanGreaterThanEquals => some ">>>="
  | .ampersandEquals => some "&="
  | .barEquals => some "|="
  | .caretEquals => some "^="
  | .barBarEquals => some "||="
  | .ampersandAmpersandEquals => some "&&="
  | .questionQuestionEquals => some "??="
  | _ => none

/-- The spelling of punctuation other than assignment operators. -/
def otherPunctuationText? : Kind → Option String
  | .openBrace => some "\x7b"
  | .closeBrace => some "\x7d"
  | .openParen => some "("
  | .closeParen => some ")"
  | .openBracket => some "["
  | .closeBracket => some "]"
  | .dot => some "."
  | .dotDotDot => some "..."
  | .semicolon => some ";"
  | .comma => some ","
  | .questionDot => some "?."
  | .lessThan => some "<"
  | .greaterThan => some ">"
  | .lessThanEquals => some "<="
  | .greaterThanEquals => some ">="
  | .equalsEquals => some "=="
  | .exclamationEquals => some "!="
  | .equalsEqualsEquals => some "==="
  | .exclamationEqualsEquals => some "!=="
  | .equalsGreaterThan => some "=>"
  | .plus => some "+"
  | .minus => some "-"
  | .asterisk => some "*"
  | .asteriskAsterisk => some "**"
  | .slash => some "/"
  | .percent => some "%"
  | .plusPlus => some "++"
  | .minusMinus => some "--"
  | .lessThanLessThan => some "<<"
  | .greaterThanGreaterThan => some ">>"
  | .greaterThanGreaterThanGreaterThan => some ">>>"
  | .ampersand => some "&"
  | .bar => some "|"
  | .caret => some "^"
  | .exclamation => some "!"
  | .tilde => some "~"
  | .ampersandAmpersand => some "&&"
  | .barBar => some "||"
  | .question => some "?"
  | .colon => some ":"
  | .at => some "@"
  | .questionQuestion => some "??"
  | .hash => some "#"
  | _ => none

/-- The spelling of punctuation. -/
def punctuationText? (k : Kind) : Option String :=
  k.assignmentText? <|> k.otherPunctuationText?

/-- The spelling of a keyword, reserved or contextual. -/
def wordText? (k : Kind) : Option String := k.reservedText? <|> k.contextualText?

def reservedWords : List Kind :=
  [.breakKeyword, .caseKeyword, .catchKeyword, .classKeyword, .constKeyword, .continueKeyword,
   .debuggerKeyword, .defaultKeyword, .deleteKeyword, .doKeyword, .elseKeyword, .enumKeyword,
   .exportKeyword, .extendsKeyword, .falseKeyword, .finallyKeyword, .forKeyword,
   .functionKeyword, .ifKeyword, .importKeyword, .inKeyword, .instanceOfKeyword, .newKeyword,
   .nullKeyword, .returnKeyword, .superKeyword, .switchKeyword, .thisKeyword, .throwKeyword,
   .trueKeyword, .tryKeyword, .typeOfKeyword, .varKeyword, .voidKeyword, .whileKeyword,
   .withKeyword]

def contextualWords : List Kind :=
  [.abstractKeyword, .accessorKeyword, .anyKeyword, .asKeyword, .assertsKeyword, .asyncKeyword,
   .awaitKeyword, .bigIntKeyword, .booleanKeyword, .constructorKeyword, .declareKeyword,
   .fromKeyword, .getKeyword, .globalKeyword, .implementsKeyword, .inferKeyword,
   .interfaceKeyword, .isKeyword, .keyOfKeyword, .letKeyword, .moduleKeyword, .namespaceKeyword,
   .neverKeyword, .numberKeyword, .objectKeyword, .ofKeyword, .overrideKeyword, .packageKeyword,
   .privateKeyword, .protectedKeyword, .publicKeyword, .readonlyKeyword, .satisfiesKeyword,
   .setKeyword, .staticKeyword, .stringKeyword, .symbolKeyword, .typeKeyword, .undefinedKeyword,
   .uniqueKeyword, .unknownKeyword, .yieldKeyword]

/-- Every keyword with its spelling. -/
def spelledWords : List (String × Kind) :=
  (reservedWords ++ contextualWords).filterMap fun k => k.wordText?.map (·, k)

/-- The keyword that is spelled `text`. -/
def ofWord? (text : String) : Option Kind := spelledWords.lookup text

def isWord (k : Kind) : Bool := k.wordText?.isSome

/-- Whether this word may be used as an identifier outside its context. -/
def isContextual (k : Kind) : Bool := k.contextualText?.isSome

/-- Whether this token may stand where a name is declared or used. -/
def isName (k : Kind) : Bool := k == .identifier || k.isContextual

/-- Whether this token may name a property, as in `a.delete`. -/
def isPropertyWord (k : Kind) : Bool := k == .identifier || k.isWord

def isAssignment (k : Kind) : Bool := k.assignmentText?.isSome

/-- Whether this word may stand in front of a declaration or member. -/
def isModifier : Kind → Bool
  | .abstractKeyword | .accessorKeyword | .asyncKeyword | .constKeyword | .declareKeyword
  | .defaultKeyword | .exportKeyword | .overrideKeyword | .privateKeyword | .protectedKeyword
  | .publicKeyword | .readonlyKeyword | .staticKeyword => true
  | _ => false

/-- Whether this word denotes a type on its own. -/
def isTypeWord : Kind → Bool
  | .anyKeyword | .bigIntKeyword | .booleanKeyword | .neverKeyword | .numberKeyword
  | .objectKeyword | .stringKeyword | .symbolKeyword | .undefinedKeyword | .unknownKeyword
  | .voidKeyword | .nullKeyword | .thisKeyword | .constKeyword => true
  | _ => false

/-- The name of the kind. -/
def name : Kind → String
  | .unknown => "Unknown"
  | .endOfFile => "EndOfFileToken"
  | .numericLiteral => "NumericLiteral"
  | .bigIntLiteral => "BigIntLiteral"
  | .stringLiteral => "StringLiteral"
  | .regularExpressionLiteral => "RegularExpressionLiteral"
  | .noSubstitutionTemplateLiteral => "NoSubstitutionTemplateLiteral"
  | .templateHead => "TemplateHead"
  | .templateMiddle => "TemplateMiddle"
  | .templateTail => "TemplateTail"
  | .openBrace => "OpenBraceToken"
  | .closeBrace => "CloseBraceToken"
  | .openParen => "OpenParenToken"
  | .closeParen => "CloseParenToken"
  | .openBracket => "OpenBracketToken"
  | .closeBracket => "CloseBracketToken"
  | .dot => "DotToken"
  | .dotDotDot => "DotDotDotToken"
  | .semicolon => "SemicolonToken"
  | .comma => "CommaToken"
  | .questionDot => "QuestionDotToken"
  | .lessThan => "LessThanToken"
  | .greaterThan => "GreaterThanToken"
  | .lessThanEquals => "LessThanEqualsToken"
  | .greaterThanEquals => "GreaterThanEqualsToken"
  | .equalsEquals => "EqualsEqualsToken"
  | .exclamationEquals => "ExclamationEqualsToken"
  | .equalsEqualsEquals => "EqualsEqualsEqualsToken"
  | .exclamationEqualsEquals => "ExclamationEqualsEqualsToken"
  | .equalsGreaterThan => "EqualsGreaterThanToken"
  | .plus => "PlusToken"
  | .minus => "MinusToken"
  | .asterisk => "AsteriskToken"
  | .asteriskAsterisk => "AsteriskAsteriskToken"
  | .slash => "SlashToken"
  | .percent => "PercentToken"
  | .plusPlus => "PlusPlusToken"
  | .minusMinus => "MinusMinusToken"
  | .lessThanLessThan => "LessThanLessThanToken"
  | .greaterThanGreaterThan => "GreaterThanGreaterThanToken"
  | .greaterThanGreaterThanGreaterThan => "GreaterThanGreaterThanGreaterThanToken"
  | .ampersand => "AmpersandToken"
  | .bar => "BarToken"
  | .caret => "CaretToken"
  | .exclamation => "ExclamationToken"
  | .tilde => "TildeToken"
  | .ampersandAmpersand => "AmpersandAmpersandToken"
  | .barBar => "BarBarToken"
  | .question => "QuestionToken"
  | .colon => "ColonToken"
  | .at => "AtToken"
  | .questionQuestion => "QuestionQuestionToken"
  | .hash => "HashToken"
  | .equals => "EqualsToken"
  | .plusEquals => "PlusEqualsToken"
  | .minusEquals => "MinusEqualsToken"
  | .asteriskEquals => "AsteriskEqualsToken"
  | .slashEquals => "SlashEqualsToken"
  | .percentEquals => "PercentEqualsToken"
  | .asteriskAsteriskEquals => "AsteriskAsteriskEqualsToken"
  | .lessThanLessThanEquals => "LessThanLessThanEqualsToken"
  | .greaterThanGreaterThanEquals => "GreaterThanGreaterThanEqualsToken"
  | .greaterThanGreaterThanGreaterThanEquals => "GreaterThanGreaterThanGreaterThanEqualsToken"
  | .ampersandEquals => "AmpersandEqualsToken"
  | .barEquals => "BarEqualsToken"
  | .caretEquals => "CaretEqualsToken"
  | .barBarEquals => "BarBarEqualsToken"
  | .ampersandAmpersandEquals => "AmpersandAmpersandEqualsToken"
  | .questionQuestionEquals => "QuestionQuestionEqualsToken"
  | .identifier => "Identifier"
  | .breakKeyword => "BreakKeyword"
  | .caseKeyword => "CaseKeyword"
  | .catchKeyword => "CatchKeyword"
  | .classKeyword => "ClassKeyword"
  | .constKeyword => "ConstKeyword"
  | .continueKeyword => "ContinueKeyword"
  | .debuggerKeyword => "DebuggerKeyword"
  | .defaultKeyword => "DefaultKeyword"
  | .deleteKeyword => "DeleteKeyword"
  | .doKeyword => "DoKeyword"
  | .elseKeyword => "ElseKeyword"
  | .enumKeyword => "EnumKeyword"
  | .exportKeyword => "ExportKeyword"
  | .extendsKeyword => "ExtendsKeyword"
  | .falseKeyword => "FalseKeyword"
  | .finallyKeyword => "FinallyKeyword"
  | .forKeyword => "ForKeyword"
  | .functionKeyword => "FunctionKeyword"
  | .ifKeyword => "IfKeyword"
  | .importKeyword => "ImportKeyword"
  | .inKeyword => "InKeyword"
  | .instanceOfKeyword => "InstanceOfKeyword"
  | .newKeyword => "NewKeyword"
  | .nullKeyword => "NullKeyword"
  | .returnKeyword => "ReturnKeyword"
  | .superKeyword => "SuperKeyword"
  | .switchKeyword => "SwitchKeyword"
  | .thisKeyword => "ThisKeyword"
  | .throwKeyword => "ThrowKeyword"
  | .trueKeyword => "TrueKeyword"
  | .tryKeyword => "TryKeyword"
  | .typeOfKeyword => "TypeOfKeyword"
  | .varKeyword => "VarKeyword"
  | .voidKeyword => "VoidKeyword"
  | .whileKeyword => "WhileKeyword"
  | .withKeyword => "WithKeyword"
  | .abstractKeyword => "AbstractKeyword"
  | .accessorKeyword => "AccessorKeyword"
  | .anyKeyword => "AnyKeyword"
  | .asKeyword => "AsKeyword"
  | .assertsKeyword => "AssertsKeyword"
  | .asyncKeyword => "AsyncKeyword"
  | .awaitKeyword => "AwaitKeyword"
  | .bigIntKeyword => "BigIntKeyword"
  | .booleanKeyword => "BooleanKeyword"
  | .constructorKeyword => "ConstructorKeyword"
  | .declareKeyword => "DeclareKeyword"
  | .fromKeyword => "FromKeyword"
  | .getKeyword => "GetKeyword"
  | .globalKeyword => "GlobalKeyword"
  | .implementsKeyword => "ImplementsKeyword"
  | .inferKeyword => "InferKeyword"
  | .interfaceKeyword => "InterfaceKeyword"
  | .isKeyword => "IsKeyword"
  | .keyOfKeyword => "KeyOfKeyword"
  | .letKeyword => "LetKeyword"
  | .moduleKeyword => "ModuleKeyword"
  | .namespaceKeyword => "NamespaceKeyword"
  | .neverKeyword => "NeverKeyword"
  | .numberKeyword => "NumberKeyword"
  | .objectKeyword => "ObjectKeyword"
  | .ofKeyword => "OfKeyword"
  | .overrideKeyword => "OverrideKeyword"
  | .packageKeyword => "PackageKeyword"
  | .privateKeyword => "PrivateKeyword"
  | .protectedKeyword => "ProtectedKeyword"
  | .publicKeyword => "PublicKeyword"
  | .readonlyKeyword => "ReadonlyKeyword"
  | .satisfiesKeyword => "SatisfiesKeyword"
  | .setKeyword => "SetKeyword"
  | .staticKeyword => "StaticKeyword"
  | .stringKeyword => "StringKeyword"
  | .symbolKeyword => "SymbolKeyword"
  | .typeKeyword => "TypeKeyword"
  | .undefinedKeyword => "UndefinedKeyword"
  | .uniqueKeyword => "UniqueKeyword"
  | .unknownKeyword => "UnknownKeyword"
  | .yieldKeyword => "YieldKeyword"
  | .qualifiedName => "QualifiedName"
  | .computedPropertyName => "ComputedPropertyName"
  | .typeParameter => "TypeParameter"
  | .parameter => "Parameter"
  | .propertySignature => "PropertySignature"
  | .methodSignature => "MethodSignature"
  | .callSignature => "CallSignature"
  | .constructSignature => "ConstructSignature"
  | .indexSignature => "IndexSignature"
  | .typePredicate => "TypePredicate"
  | .typeReference => "TypeReference"
  | .functionType => "FunctionType"
  | .constructorType => "ConstructorType"
  | .typeQuery => "TypeQuery"
  | .typeLiteral => "TypeLiteral"
  | .arrayType => "ArrayType"
  | .tupleType => "TupleType"
  | .namedTupleMember => "NamedTupleMember"
  | .optionalType => "OptionalType"
  | .restType => "RestType"
  | .unionType => "UnionType"
  | .intersectionType => "IntersectionType"
  | .conditionalType => "ConditionalType"
  | .inferType => "InferType"
  | .parenthesizedType => "ParenthesizedType"
  | .typeOperator => "TypeOperator"
  | .indexedAccessType => "IndexedAccessType"
  | .mappedType => "MappedType"
  | .literalType => "LiteralType"
  | .objectBindingPattern => "ObjectBindingPattern"
  | .arrayBindingPattern => "ArrayBindingPattern"
  | .bindingElement => "BindingElement"
  | .arrayLiteralExpression => "ArrayLiteralExpression"
  | .objectLiteralExpression => "ObjectLiteralExpression"
  | .propertyAccessExpression => "PropertyAccessExpression"
  | .elementAccessExpression => "ElementAccessExpression"
  | .callExpression => "CallExpression"
  | .newExpression => "NewExpression"
  | .parenthesizedExpression => "ParenthesizedExpression"
  | .functionExpression => "FunctionExpression"
  | .arrowFunction => "ArrowFunction"
  | .prefixUnaryExpression => "PrefixUnaryExpression"
  | .postfixUnaryExpression => "PostfixUnaryExpression"
  | .binaryExpression => "BinaryExpression"
  | .conditionalExpression => "ConditionalExpression"
  | .templateExpression => "TemplateExpression"
  | .templateSpan => "TemplateSpan"
  | .spreadElement => "SpreadElement"
  | .omittedExpression => "OmittedExpression"
  | .asExpression => "AsExpression"
  | .satisfiesExpression => "SatisfiesExpression"
  | .typeAssertionExpression => "TypeAssertionExpression"
  | .nonNullExpression => "NonNullExpression"
  | .expressionWithTypeArguments => "ExpressionWithTypeArguments"
  | .propertyAssignment => "PropertyAssignment"
  | .shorthandPropertyAssignment => "ShorthandPropertyAssignment"
  | .spreadAssignment => "SpreadAssignment"
  | .methodDeclaration => "MethodDeclaration"
  | .getAccessor => "GetAccessor"
  | .setAccessor => "SetAccessor"
  | .block => "Block"
  | .variableStatement => "VariableStatement"
  | .expressionStatement => "ExpressionStatement"
  | .ifStatement => "IfStatement"
  | .returnStatement => "ReturnStatement"
  | .breakStatement => "BreakStatement"
  | .continueStatement => "ContinueStatement"
  | .throwStatement => "ThrowStatement"
  | .switchStatement => "SwitchStatement"
  | .caseClause => "CaseClause"
  | .defaultClause => "DefaultClause"
  | .variableDeclaration => "VariableDeclaration"
  | .variableDeclarationList => "VariableDeclarationList"
  | .functionDeclaration => "FunctionDeclaration"
  | .interfaceDeclaration => "InterfaceDeclaration"
  | .typeAliasDeclaration => "TypeAliasDeclaration"
  | .enumDeclaration => "EnumDeclaration"
  | .enumMember => "EnumMember"
  | .heritageClause => "HeritageClause"
  | .importDeclaration => "ImportDeclaration"
  | .importClause => "ImportClause"
  | .namespaceImport => "NamespaceImport"
  | .namedImports => "NamedImports"
  | .importSpecifier => "ImportSpecifier"
  | .exportDeclaration => "ExportDeclaration"
  | .namedExports => "NamedExports"
  | .exportSpecifier => "ExportSpecifier"
  | .exportAssignment => "ExportAssignment"
  | .unsupportedStatement => "UnsupportedStatement"
  | .sourceFile => "SourceFile"
  | .hole => "Hole"

/-- What a message calls a token or node of this kind: its spelling, or else the kind's name. -/
def display (k : Kind) : String := (k.punctuationText? <|> k.wordText?).getD k.name

end Kind

end FactorySync
