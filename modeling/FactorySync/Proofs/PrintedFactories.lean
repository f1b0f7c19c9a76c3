import FactorySync.Proofs.PrintedTypes

/-!
# Printed factories are read back

A factory is printed as a method that returns an object literal (`FactoryTerm`). In front of any
words the production of members reads its words as that method, with its name, its one parameter,
its return type and its one statement (`FactoryTerm.Fits.readsRow`).
-/

namespace FactorySync

open Parse

/-- What may stand behind a value. -/
def Kind.endsValue (k : Kind) : Bool := k == .comma || k == .closeBrace || k == .semicolon

theorem Kind.endsValue_cases {k : Kind} (h : k.endsValue = true) :
    k = .comma ∨ k = .closeBrace ∨ k = .semicolon := by
  simpa [endsValue, or_assoc] using h

/-- What may stand behind a value, behind what a type is asserted of or what is compared. -/
def Kind.endsOperand (k : Kind) : Bool :=
  k.endsValue || k == .asKeyword || k == .equalsEqualsEquals

theorem Kind.endsOperand_of_endsValue {k : Kind} (h : k.endsValue = true) :
    k.endsOperand = true := by
  rw [endsOperand, h, Bool.true_or, Bool.true_or]

theorem Kind.endsOperand_cases {k : Kind} (h : k.endsOperand = true) :
    k = .comma ∨ k = .closeBrace ∨ k = .semicolon ∨ k = .asKeyword ∨ k = .equalsEqualsEquals := by
  simpa [endsOperand, endsValue, or_assoc] using h

namespace Parser

variable {c : Context} {ws rest : List Word} {P : Node → Prop}

/-! ## Values -/

/-- The row begins with a name or an opening brace and not with an arrow function. -/
structure BeginsValue (ws : List Word) : Prop where
  kind : (Word.first ws).kind = .identifier ∨ (Word.first ws).kind = .openBrace
  noArrow : (Word.first ws.tail).kind ≠ .equalsGreaterThan

theorem BeginsValue.ne (begins : BeginsValue ws) {k : Kind}
    (apart : k ∉ [Kind.identifier, .openBrace]) : (Word.first ws).kind ≠ k := by
  rintro rfl
  simp [begins.kind] at apart

theorem arrowFunction_none (begins : BeginsValue ws) : arrowFunction.ReadsRow c ws ws (· = none) := by
  have noAsync : beginsAsyncArrow.ReadsRow c ws ws (· = false) :=
    .andThen .kind (.ite_neg (begins.ne (by decide)) (.pure rfl))
  have noName : (beginsSimpleArrow false).ReadsRow c ws ws (· = false) := by
    obtain name | brace := begins.kind
    · refine .lookAhead ⟨ws.tail, .andThen .skipIf_neg (.andThen .kind ?_)⟩
      rw [name]
      refine .ite_pos rfl (.andThen .advance (.andThen .kind (.andThen .afterLineBreak (.pure ?_))))
      rw [beq_false_of_ne begins.noArrow, Bool.false_and]
    · refine .lookAhead ⟨ws, .andThen .skipIf_neg (.andThen .kind ?_)⟩
      rw [brace]
      exact .ite_neg Bool.false_ne_true (.pure rfl)
  have noHead : (mayOpenHead false).ReadsRow c ws ws (· = false) := by
    refine .ite_neg Bool.false_ne_true (.andThen .kind (.pure ?_))
    rw [opensHead, beq_false_of_ne (begins.ne (by decide)), beq_false_of_ne (begins.ne (by decide))]
    rfl
  refine .bind .here fun start _ => .andThen noAsync (.andThen noName ?_)
  refine .ite_neg Bool.false_ne_true (.andThen noHead (.ite_neg Bool.false_ne_true (.pure rfl)))

/-- What begins a value is no prefix, and behind an operand there is no `++`. -/
theorem unary_readsRow (begins : BeginsValue ws)
    (ends : (Word.first rest).kind.endsOperand = true) (h : leftHandSide.ReadsRow c ws rest P) :
    unary.ReadsRow c ws rest P := by
  have ne {k : Kind} (other : k.endsOperand = false) : (Word.first rest).kind ≠ k := by
    rintro rfl
    rw [other] at ends
    cases ends
  have postfixed (start : Nat) : (postfixed start).ReadsRow c ws rest P := by
    refine .bind h fun n hn => .andThen .kind (.andThen .afterLineBreak (.ite_neg ?_ (.pure hn)))
    simp [ne (k := .plusPlus) rfl, ne (k := .minusMinus) rfl]
  refine .bind .here fun start _ => .andThen .kind ?_
  obtain name | brace := begins.kind
  · rw [name]
    exact postfixed start
  · rw [brace]
    exact postfixed start

/-- Operands with nothing of lower strength behind them are all of an assignment. -/
theorem assignment_of_binary (room : c.Room 1) (begins : BeginsValue ws)
    (ends : (Word.first rest).kind.endsValue = true)
    (h : (binary 0).ReadsRow { c with depth := c.depth + 1 } ws rest P) :
    (need .assignment).ReadsRow c ws rest P := by
  have noQuestion : (Word.first rest).kind ≠ .question := by
    rintro question
    rw [question] at ends
    cases ends
  have conditional : conditional.ReadsRow { c with depth := c.depth + 1 } ws rest P := by
    refine .bind .here fun start _ => .bind (.need h) fun n hn => ?_
    exact .andThen (.accept_neg noQuestion) (.ite_neg Bool.false_ne_true (.pure hn))
  have noAssignment : (Word.first rest).kind.isAssignment = false := by
    obtain comma | brace | semicolon := Kind.endsValue_cases ends
    · rw [comma]; rfl
    · rw [brace]; rfl
    · rw [semicolon]; rfl
  refine .need (.deeper room (.andThen (arrowFunction_none begins) ?_))
  refine .bind .here fun start _ => .bind conditional fun n hn => .andThen .kind ?_
  exact .ite_neg (Bool.eq_false_iff.1 noAssignment) (.pure hn)

/-- One operator behind an operand, with what it is applied to. -/
def operatorRound (start least : Nat) (left : Node) : Parser (Node ⊕ Node) := do
  rescan .greaterThan
  let operator ← kind
  match operator.strength? with
  | none => return .inr left
  | some strength =>
    if bindsTighter operator strength least then
      if operator = .asKeyword ∨ operator = .satisfiesKeyword then
        if ← afterLineBreak then return .inr left
        else
          advance
          let type ← need .type
          let k := if operator = .asKeyword then Kind.asExpression else .satisfiesExpression
          return .inl (← node k start [left.inRole .expression, type.inRole .typeNode])
      else
        let mark ← keep .operator
        let right ← need (.binary strength)
        let joined ← node .binaryExpression start [left.inRole .left, right.inRole .right]
        return .inl { joined with marks := [mark] }
    else return .inr left

theorem binary_eq (least : Nat) : binary least = (do
    let start ← here
    let first ← need .unary
    loop (operatorRound start least) first) := rfl

theorem operatorRound_over {start least : Nat} {left : Node}
    (ends : (Word.first ws).kind.endsValue = true) (h : P left) :
    (operatorRound start least left).ReadsRow c ws ws fun x => ∃ n, x = .inr n ∧ P n := by
  have noGreater : (Word.first ws).kind ≠ .greaterThan := by
    rintro greater
    rw [greater] at ends
    cases ends
  refine .andThen (.rescan_neg noGreater) (.andThen .kind ?_)
  obtain comma | brace | semicolon := Kind.endsValue_cases ends
  · rw [comma]
    exact .pure ⟨left, rfl, h⟩
  · rw [brace]
    exact .pure ⟨left, rfl, h⟩
  · rw [semicolon]
    exact .pure ⟨left, rfl, h⟩

/-- An operand in front of what may stand behind a value. -/
theorem binary_readsRow (least : Nat) (begins : BeginsValue ws)
    (ends : (Word.first rest).kind.endsValue = true) (h : leftHandSide.ReadsRow c ws rest P) :
    (binary least).ReadsRow c ws rest P := by
  have operand := unary_readsRow begins (Kind.endsOperand_of_endsValue ends) h
  rw [binary_eq]
  refine .bind .here fun start _ => .bind (.need operand) fun n hn => ?_
  exact .loop (.iterate_inr (operatorRound_over ends hn))

/-- Behind a value no operator follows, so the operand is the whole. -/
theorem assignment_readsRow (room : c.Room 1) (begins : BeginsValue ws)
    (ends : (Word.first rest).kind.endsValue = true)
    (h : leftHandSide.ReadsRow { c with depth := c.depth + 1 } ws rest P) :
    (need .assignment).ReadsRow c ws rest P :=
  assignment_of_binary room begins ends (binary_readsRow 0 begins ends h)

/-- One link of a chain. -/
def linkRound (allowCalls : Bool) (target : Node) : Parser (Node ⊕ Node) := do
  let next ← kind
  match next with
  | .dot =>
    advance
    return .inl (← propertyLink target [])
  | .questionDot => return .inl (← optionalLink target allowCalls)
  | .openBracket => return .inl (← elementLink target [])
  | .exclamation =>
    if ← afterLineBreak then return .inr target
    else
      advance
      return .inl (← node .nonNullExpression target.span.start [target.inRole .expression])
  | .openParen =>
    if allowCalls then return .inl (← callLink target [] ([], []))
    else return .inr target
  | .lessThan =>
    if allowCalls then
      match ← soundTypeArguments (· == .openParen) with
      | some typed => return .inl (← callLink target [] typed)
      | none => return .inr target
    else return .inr target
  | _ => return .inr target

theorem chain_eq (allowCalls : Bool) (first : Node) :
    chain allowCalls first = loop (linkRound allowCalls) first := rfl

theorem linkRound_over {target : Node} (ends : (Word.first ws).kind.endsOperand = true)
    (h : P target) :
    (linkRound true target).ReadsRow c ws ws fun x => ∃ n, x = .inr n ∧ P n := by
  refine .andThen .kind ?_
  obtain comma | brace | semicolon | isAs | identical := Kind.endsOperand_cases ends
  · rw [comma]
    exact .pure ⟨target, rfl, h⟩
  · rw [brace]
    exact .pure ⟨target, rfl, h⟩
  · rw [semicolon]
    exact .pure ⟨target, rfl, h⟩
  · rw [isAs]
    exact .pure ⟨target, rfl, h⟩
  · rw [identical]
    exact .pure ⟨target, rfl, h⟩

/-- What a chain begins with is all of it if no link follows. -/
theorem leftHandSide_readsRow (h : chainHead.ReadsRow c ws rest P)
    (ends : (Word.first rest).kind.endsOperand = true) : leftHandSide.ReadsRow c ws rest P := by
  refine .bind h fun first found => ?_
  rw [chain_eq]
  exact .loop fun n => .iterate_inr (linkRound_over ends found) n

theorem chainHead_readsRow (noNew : (Word.first ws).kind ≠ .newKeyword)
    (h : primary.ReadsRow c ws rest P) : chainHead.ReadsRow c ws rest P :=
  .andThen .kind (.ite_neg noNew h)

theorem name_readsRow {x : String} (plain : Kind.ofName x = .identifier) :
    chainHead.ReadsRow c (.name x :: ws) ws fun n => n.unplaced = TypeTerm.nameTree x := by
  have isName : (Word.name x).kind = .identifier := plain
  refine chainHead_readsRow (by simp [isName]) (.bind .here fun start _ => .andThen .kind ?_)
  rw [Word.first_cons, isName]
  refine .andThen .nextOnLineIs (.ite_neg Bool.false_ne_true (.ite_pos rfl ?_))
  exact TypeTerm.identifierHere_readsRow

/-- `x.y` -/
def accessTree (x y : String) : Node :=
  { kind := .propertyAccessExpression, span := .empty 0
    children := [(TypeTerm.nameTree x).inRole .expression, (TypeTerm.nameTree y).inRole .name] }

theorem access_readsRow {x y : String} (plain : Kind.ofName x = .identifier)
    (ends : (Word.first ws).kind.endsOperand = true) :
    leftHandSide.ReadsRow c (.name x :: .mark .dot '.' :: .name y :: ws) ws fun n =>
      n.unplaced = accessTree x y := by
  refine .bind (name_readsRow plain) fun first hfirst => ?_
  rw [chain_eq]
  have noLink (m : Node) (hm : m.unplaced = accessTree x y) := linkRound_over (c := c) ends
    (P := fun n => n.unplaced = accessTree x y) hm
  refine .loop fun n => .iterate_inl ?_ (fun m hm n => .iterate_inr (noLink m hm) n) n
  refine .andThen .kind (.andThen .advance (.bind ?_ fun m hm => .pure ⟨m, rfl, hm⟩))
  refine .bind (TypeTerm.nameTree_readsRow (Kind.isPropertyWord_ofName y)) fun name hname => ?_
  refine .bind .node_eq fun m hm => .pure ?_
  obtain ⟨stop, rfl⟩ := hm
  rw [Node.unplaced_mk]
  simp [hfirst, hname, accessTree, linkFlags, Detail.unplaced]

/-! ## Members of object literals -/

/-- One round of reading members. -/
def memberRound (members : List (Node × Option Nat)) :
    Parser (List (Node × Option Nat) ⊕ List (Node × Option Nat)) := do
  if (← kind).endsBlock then return .inr members.reverse
  else
    let member := (← objectMember).inRole .properties
    let t ← token
    if ← accept .comma then return .inl ((member, some t.stop) :: members)
    else return .inr ((member, none) :: members).reverse

theorem objectMembers_eq : objectMembers = loop memberRound [] := rfl

/-- A literal has the members that are read between its braces. -/
theorem objectLiteral_readsRow {opening closing : Word} {inside : List Word}
    {Q : List (Node × Option Nat) → Prop} (opens : opening.kind = .openBrace)
    (closes : closing.kind = .closeBrace)
    (members : objectMembers.ReadsRow c inside (closing :: ws) Q) :
    objectLiteral.ReadsRow c (opening :: inside) ws fun n => ∃ ms r s flags, Q ms ∧
      c.known (opening :: inside).length r ∧ c.known ws.length s ∧
      n = {
        kind := .objectLiteralExpression, span := ⟨r.here, s.lastEnd⟩, flags
        detail := .separators (ms.map (·.2)), children := ms.map (·.1) } := by
  refine .bind .here_known ?_
  rintro _ ⟨r, start, rfl⟩
  refine .bind (.view (P := fun _ => True) fun _ _ => trivial) fun text _ => ?_
  refine .andThen (.require opens) (.bind members fun ms hms => .andThen (.require closes) ?_)
  refine .bind .node_known fun n hn => .pure ?_
  obtain ⟨s, stop, rfl⟩ := hn
  exact ⟨ms, r, s, _, hms, start, stop, rfl⟩

theorem propertyName_readsRow {w : Word} (isWord : w.kind.isPropertyWord = true) :
    propertyName.ReadsRow c (w :: ws) ws fun n => n.unplaced = TypeTerm.nameTree w.value := by
  have ne {k : Kind} (other : k.isPropertyWord = false) : w.kind ≠ k := by
    rintro same
    rw [same, other] at isWord
    cases isWord
  refine .andThen .kind ?_
  rw [Word.first_cons]
  split
  · next other => exact absurd other (ne rfl)
  · next other => exact absurd other (ne rfl)
  · next other => exact absurd other (ne rfl)
  · next other => exact absurd other (ne rfl)
  · exact TypeTerm.identifierIf_readsRow isWord

/-- A member that begins with a name and goes on with a parenthesis or a colon. -/
theorem named_readsRow {w : Word} (isWord : w.kind.isPropertyWord = true)
    (next : (Word.first ws).kind = .openParen ∨ (Word.first ws).kind = .colon)
    (h : ∀ start name, name.unplaced = (TypeTerm.nameTree w.value).inRole .name →
      Parser.ReadsRow (do
        let next ← kind
        if next == .openParen || next == .lessThan then method start {} name [] []
        else property start name) c ws rest P) : objectMember.ReadsRow c (w :: ws) rest P := by
  have ne {k : Kind} (other : k.isPropertyWord = false) : w.kind ≠ k := by
    rintro same
    rw [same, other] at isWord
    cases isWord
  have noName : (Word.first ws).kind.beginsPropertyName = false := by
    obtain paren | colon := next
    · rw [paren]
      rfl
    · rw [colon]
      rfl
  have notNext {k : Kind} (other : k ≠ .openParen ∧ k ≠ .colon) : (Word.first ws).kind ≠ k := by
    rintro rfl
    exact next.elim other.1 other.2
  have noAsterisk := notNext (k := .asterisk) ⟨nofun, nofun⟩
  have noAsync : asyncWord.ReadsRow c (w :: ws) (w :: ws) (· = false) :=
    .andThen .kind (.andThen .nextOnLineIs (.ite_neg (by simp [noName, noAsterisk]) (.pure rfl)))
  have noAccessor : (accessorWord true).ReadsRow c (w :: ws) (w :: ws) (· = none) :=
    .andThen .kind (.andThen .nextIs (.ite_neg (by simp [noName]) (.pure rfl)))
  refine .bind .here fun start _ => .andThen (.accept_neg (ne rfl)) (.ite_neg Bool.false_ne_true ?_)
  refine .andThen noAsync (.andThen (.keepIf_neg (ne rfl)) (.andThen noAccessor ?_))
  refine .bind (propertyName_readsRow isWord) fun n hn => ?_
  refine .andThen (.keepIf_neg (notNext ⟨nofun, nofun⟩)) (h start _ ?_)
  rw [Node.unplaced_inRole, hn]

/-- `x: value` -/
theorem property_readsRow {x : String} {value : Node} (room : c.Room 1)
    (begins : BeginsValue ws) (ends : (Word.first rest).kind.endsValue = true)
    (h : leftHandSide.ReadsRow { c with depth := c.depth + 1 } ws rest fun n => n.unplaced = value) :
    objectMember.ReadsRow c (.name x :: .mark .colon ':' :: ws) rest fun n => n.unplaced =
      { kind := .propertyAssignment, span := .empty 0
        children := [(TypeTerm.nameTree x).inRole .name, value.inRole .initializer] } := by
  refine named_readsRow (Kind.isPropertyWord_ofName x) (.inr rfl) fun start name hname => ?_
  refine .andThen .kind (.ite_neg nofun (.andThen (.accept_pos rfl) (.ite_pos rfl ?_)))
  refine .bind (assignment_readsRow room begins ends h) fun n hn => ?_
  refine TypeTerm.node_readsRow.mono fun m hm => ?_
  rw [hm]
  simp [hn, hname, Word.name]

/-! ## The returned value -/

/-- `...x` -/
theorem spread_readsRow {x : String} (room : c.Room 1)
    (plain : Kind.ofName x = .identifier) (ends : (Word.first ws).kind.endsValue = true) :
    objectMember.ReadsRow c (.dots :: .name x :: ws) ws fun n => n.unplaced =
      { kind := .spreadAssignment, span := .empty 0
        children := [(TypeTerm.nameTree x).inRole .expression] } := by
  refine .bind .here fun start _ => .andThen (.accept_pos rfl) (.ite_pos rfl ?_)
  have begins : BeginsValue (.name x :: ws) := by
    refine ⟨.inl plain, ?_⟩
    obtain comma | brace | semicolon := Kind.endsValue_cases ends <;> simp [*]
  refine .bind (assignment_readsRow room begins ends
    (leftHandSide_readsRow (name_readsRow plain) (Kind.endsOperand_of_endsValue ends)))
    fun n hn => ?_
  refine TypeTerm.node_readsRow.mono fun m hm => ?_
  rw [hm]
  simp [hn]

/-! ## Returning a value -/

/-- `return value;` -/
def returnTree (value : Node) : Node :=
  { kind := .returnStatement, span := .empty 0, children := [value.inRole .expression] }

/-- A value that begins on the line of `return`. -/
theorem return_readsRow {inside : List Word} (begins : BeginsValue inside)
    (sameLine : (Word.first inside).startsLine = false)
    (value : (need .assignment).ReadsRow c inside (.mark .semicolon ';' :: ws) P) :
    statement.ReadsRow c ((Word.keyword .returnKeyword).onNewLine :: inside) ws fun n =>
      ∃ m, P m ∧ n.unplaced = returnTree m.unplaced := by
  have whole : expression.ReadsRow c inside (.mark .semicolon ';' :: ws) P := by
    refine .bind .here fun start _ => .bind value fun n hn => ?_
    exact .loop fun rounds => .iterate_inr (.andThen .kind (.ite_neg nofun (.pure ⟨n, rfl, hn⟩)))
      rounds
  have goesOn : atStatementEnd.ReadsRow c inside inside (· = false) := by
    have behind : afterLineBreak.ReadsRow c inside inside (· = false) := by
      rw [← sameLine]
      exact .afterLineBreak
    refine .andThen .kind ?_
    obtain name | brace := begins.kind
    · rw [name]
      exact behind
    · rw [brace]
      exact behind
  have value : optionalValue.ReadsRow c inside (.mark .semicolon ';' :: ws) fun ns =>
      ∃ n : Node, ns = [n.inRole .expression] ∧ P n :=
    .andThen goesOn (.ite_neg Bool.false_ne_true (.bind whole fun n hn => .pure ⟨n, rfl, hn⟩))
  refine .bind .here fun start _ => .andThen .kind ?_
  refine .bind .here fun start _ => .andThen (.require rfl) (.bind value fun ns hns => ?_)
  obtain ⟨n, rfl, hn⟩ := hns
  refine .andThen (endStatement_readsRow rfl) (TypeTerm.node_readsRow.mono fun m hm => ⟨n, hn, ?_⟩)
  rw [hm]
  simp [returnTree]

/-! ## Methods -/

section Methods

variable {x : String} {T : Node} {inside mid : List Word} {parts : List Node}

/-- `x: type` -/
def parameterTree (x : String) (type : Node) : Node :=
  { kind := .parameter, span := .empty 0
    children := [(TypeTerm.nameTree x).inRole .name, type.inRole .declaredType] }

theorem parameter_readsRow (plain : Kind.ofName x = .identifier)
    (type : (need .type).ReadsRow c inside (.mark .closeParen ')' :: ws) fun n => n.unplaced = T) :
    parameter.ReadsRow c (.name x :: .mark .colon ':' :: inside) (.mark .closeParen ')' :: ws)
      fun n => n.unplaced = parameterTree x T := by
  have isName : (Word.name x).kind = .identifier := plain
  have binding (ws : List Word) : bindingName.ReadsRow c (.name x :: ws) ws
      fun n => n.unplaced = TypeTerm.nameTree x := by
    refine .andThen .kind ?_
    rw [Word.first_cons, isName]
    exact TypeTerm.nameTree_readsRow (by rw [plain]; rfl)
  have name (ws : List Word) : parameterName.ReadsRow c (.name x :: ws) ws
      fun n => n.unplaced = TypeTerm.nameTree x :=
    .andThen .kind (.ite_neg (by simp [isName]) (.need (binding ws)))
  have unmodified (ws : List Word) : modifiers.ReadsRow c (.name x :: ws) (.name x :: ws) (· = {}) :=
    TypeTerm.modifiers_none (by simp [isName, Kind.isModifier])
  refine .bind .here fun start _ => .andThen (unmodified _) ?_
  refine .andThen (.keepIf_neg (by simp [isName])) (.bind (name _) fun n hn => ?_)
  refine .andThen (.keepIf_neg Kind.noConfusion) (.bind (.afterToken_pos rfl type) fun ns hns => ?_)
  obtain ⟨m, rfl, hm⟩ := hns
  refine .andThen (.afterToken_neg Kind.noConfusion) (.bind .node_eq fun k hk => .pure ?_)
  obtain ⟨stop, rfl⟩ := hk
  rw [Node.unplaced_mk]
  simp [hn, hm, parameterTree, Detail.unplaced]

theorem parameterList_readsRow (plain : Kind.ofName x = .identifier)
    (type : (need .type).ReadsRow c inside (.mark .closeParen ')' :: ws) fun n => n.unplaced = T) :
    parameterList.ReadsRow c (.mark .openParen '(' :: .name x :: .mark .colon ':' :: inside) ws
      fun ns => ∃ n : Node, ns = [n.inRole .parameters] ∧ n.unplaced = parameterTree x T := by
  have isName : (Word.name x).kind = .identifier := plain
  have list : (commaList Kind.endsParens parameter).ReadsRow c
      (.name x :: .mark .colon ':' :: inside) (.mark .closeParen ')' :: ws)
      fun ns => ∃ n, ns = [n] ∧ n.unplaced = parameterTree x T := by
    refine .loop fun n => .iterate_inr (.andThen .kind (.ite_neg ?_ ?_)) n
    · simp [isName, Kind.endsParens]
    refine .bind (parameter_readsRow plain type) fun n hn => ?_
    refine .andThen (.accept_neg nofun) (.ite_neg Bool.false_ne_true (.pure ⟨_, rfl, n, rfl, hn⟩))
  refine .andThen (.expect_pos rfl) (.ite_pos rfl (.bind list fun ns hns => ?_))
  obtain ⟨n, rfl, hn⟩ := hns
  exact .andThen (.require rfl) (.pure ⟨n, rfl, hn⟩)

/-- A type of one word is no predicate. -/
theorem returnType_readsRow (behind : (Word.first inside.tail).kind = .openBrace)
    (type : (need .type).ReadsRow c inside mid fun n => n.unplaced = T) :
    returnType.ReadsRow c (.mark .colon ':' :: inside) mid fun ns =>
      ∃ n : Node, ns = [n.inRole .returnType] ∧ n.unplaced = T := by
  refine .afterToken_pos rfl (.bind .here fun start _ => .andThen .kind ?_)
  refine .andThen .nextOnLineIs (.ite_neg ?_ (.andThen .nextOnLineIs (.ite_neg ?_ type)))
  · have noName : Kind.openBrace.isName = false := rfl
    simp [behind, noName]
  · simp [behind]

/-- One parameter and the type that is returned. -/
theorem signature_readsRow {R : Node} (plain : Kind.ofName x = .identifier)
    (behind : (Word.first mid.tail).kind = .openBrace)
    (type : (need .type).ReadsRow c inside (.mark .closeParen ')' :: .mark .colon ':' :: mid)
      fun n => n.unplaced = T)
    (result : (need .type).ReadsRow c mid ws fun n => n.unplaced = R) :
    signature.ReadsRow c (.mark .openParen '(' :: .name x :: .mark .colon ':' :: inside) ws
      fun found => found.1 = [] ∧ found.2.map (·.unplaced) =
        [(parameterTree x T).inRole .parameters, R.inRole .returnType] := by
  refine .andThen (TypeTerm.typeParameters_none nofun)
    (.bind (parameterList_readsRow plain type) fun ns hns => ?_)
  obtain ⟨n, rfl, hn⟩ := hns
  refine .bind (returnType_readsRow behind result) fun ms hms => .pure ?_
  obtain ⟨m, rfl, hm⟩ := hms
  simp [hn, hm]

/-- A block of one statement. -/
def blockTree (statement : Node) : Node :=
  { kind := .block, span := .empty 0, children := [statement.inRole .statements] }

theorem requiredBody_readsRow {opening closing : Word} (opens : opening.kind = .openBrace)
    (closes : closing.kind = .closeBrace) (begins : (Word.first inside).kind.endsBlock = false)
    (statement : statement.ReadsRow c inside (closing :: ws) P) :
    requiredBody.ReadsRow c (opening :: inside) ws fun ns =>
      ∃ n m : Node, ns = [n.inRole .body] ∧ P m ∧ n.unplaced = blockTree m.unplaced := by
  have ends : (Word.first (closing :: ws)).kind.endsBlock = true := by
    rw [Word.first_cons, closes]
    rfl
  have block : block.ReadsRow c (opening :: inside) ws fun n =>
      ∃ m, P m ∧ n.unplaced = blockTree m.unplaced := by
    refine .bind .here fun start _ => .andThen (.require opens) ?_
    refine .bind ((singleStatement_rows begins ends statement).readsRow ends) fun ns hns =>
      .andThen (.require closes) ?_
    obtain ⟨ms, rfl, all⟩ := hns
    obtain ⟨n, ns, hn, rest, rfl⟩ := List.forall₂_cons_left_iff.1 all
    cases rest
    refine TypeTerm.node_readsRow.mono fun m hm => ⟨n, hn, ?_⟩
    rw [hm]
    simp [blockTree]
  refine .andThen .kind (.ite_pos opens (.bind block fun n hn => .pure ?_))
  obtain ⟨m, hm, same⟩ := hn
  exact ⟨n, m, rfl, hm, same⟩

/-- A method with these parameters and this return type, and with a block of one statement. -/
def methodTree (x : String) (parts : List Node) (statement : Node) : Node :=
  { kind := .methodDeclaration, span := .empty 0
    children := (TypeTerm.nameTree x).inRole .name :: parts ++
      [(blockTree statement).inRole .body] }

theorem method_readsRow (paren : (Word.first inside).kind = .openParen)
    (signature : signature.ReadsRow c inside mid fun found =>
      found.1 = [] ∧ found.2.map (·.unplaced) = parts)
    (body : requiredBody.ReadsRow c mid rest fun ns =>
      ∃ n m : Node, ns = [n.inRole .body] ∧ P m ∧ n.unplaced = blockTree m.unplaced) :
    objectMember.ReadsRow c ((Word.name x).onNewLine :: inside) rest fun n =>
      ∃ m, P m ∧ n.unplaced = methodTree x parts m.unplaced := by
  refine named_readsRow (Kind.isPropertyWord_ofName x) (.inl paren) fun start name named => ?_
  have hname : name.unplaced = (TypeTerm.nameTree x).inRole .name := named
  refine .andThen .kind (.ite_pos (by rw [paren]; rfl) (.bind signature fun found hfound => ?_))
  obtain ⟨lists, parts'⟩ := found
  obtain ⟨rfl, rfl⟩ := hfound
  refine .bind body fun ns hns => .bind .node_eq fun m hm => .pure ?_
  obtain ⟨n, k, rfl, hk, hn⟩ := hns
  obtain ⟨stop, rfl⟩ := hm
  refine ⟨k, hk, ?_⟩
  rw [Node.unplaced_mk]
  simp [hname, hn, methodTree, Detail.unplaced]

end Methods

end Parser

/-- What a factory returns: all of its parameter and the kind. -/
structure ReturnedValue where
  parameter : String
  enum : String
  kind : String

namespace ReturnedValue

open FactorySync.Parser

variable {c : Context} {ws : List Word}

def words (v : ReturnedValue) : List Word :=
  [.mark .openBrace '\x7b', .dots, .name v.parameter, .mark .comma ',', .name "kind",
    .mark .colon ':', .name v.enum, .mark .dot '.', .name v.kind, .mark .closeBrace '\x7d']

/-- `...parameter` -/
def spread (v : ReturnedValue) : Node :=
  { kind := .spreadAssignment, span := .empty 0
    children := [(TypeTerm.nameTree v.parameter).inRole .expression] }

/-- `kind: enum.kind` -/
def property (v : ReturnedValue) : Node :=
  { kind := .propertyAssignment, span := .empty 0
    children := [(TypeTerm.nameTree "kind").inRole .name,
      (accessTree v.enum v.kind).inRole .initializer] }

/-- The flags tell whether the literal is on one line. -/
def tree (v : ReturnedValue) (flags : NodeFlags) : Node :=
  { kind := .objectLiteralExpression, span := .empty 0, flags
    detail := .separators [some 0, none]
    children := [v.spread.inRole .properties, v.property.inRole .properties] }

theorem members_readsRow (v : ReturnedValue) (room : c.Room 1)
    (plain : Kind.ofName v.parameter = .identifier) (plain' : Kind.ofName v.enum = .identifier) :
    objectMembers.ReadsRow c (v.words.tail ++ ws) (.mark .closeBrace '\x7d' :: ws) fun ms =>
      (ms.map (·.1)).map (·.unplaced) = (v.tree {}).children ∧
        (ms.map (·.2)).map (·.map fun _ => 0) = [some 0, none] := by
  have first (ws : List Word) : objectMember.ReadsRow c
      (.dots :: .name v.parameter :: .mark .comma ',' :: ws) (.mark .comma ',' :: ws)
      fun n => n.unplaced = v.spread := spread_readsRow room plain rfl
  have second : objectMember.ReadsRow c (.name "kind" :: .mark .colon ':' :: .name v.enum ::
      .mark .dot '.' :: .name v.kind :: .mark .closeBrace '\x7d' :: ws)
      (.mark .closeBrace '\x7d' :: ws) fun n => n.unplaced = v.property :=
    property_readsRow room ⟨.inl plain', nofun⟩ rfl (access_readsRow plain' rfl)
  have goesOn : (Kind.ofName "kind").endsBlock = false := by decide +kernel
  have round : (memberRound []).ReadsRow c (v.words.tail ++ ws) (.name "kind" :: .mark .colon ':' ::
      .name v.enum :: .mark .dot '.' :: .name v.kind :: .mark .closeBrace '\x7d' :: ws) fun x =>
      ∃ found, x = .inl found ∧ ∃ (m : Node) (stop : Nat),
        found = [(m.inRole .properties, some stop)] ∧ m.unplaced = v.spread := by
    refine .andThen .kind (.ite_neg nofun (.bind (first _) fun m hm => .bind .token fun t _ => ?_))
    exact .andThen (.accept_pos rfl) (.ite_pos rfl (.pure ⟨_, rfl, m, t.stop, rfl, hm⟩))
  rw [objectMembers_eq]
  refine .loop (.iterate_inl round ?_)
  rintro found ⟨m, stop, rfl, hm⟩
  refine .iterate_inr (.andThen .kind (.ite_neg (Bool.eq_false_iff.1 goesOn) ?_))
  refine .bind second fun k hk => .bind .token fun t _ => .andThen (.accept_neg nofun) ?_
  refine .ite_neg Bool.false_ne_true (.pure ⟨_, rfl, ?_⟩)
  simp [hm, hk, tree]

theorem readsRow (v : ReturnedValue) (room : c.Room 2)
    (plain : Kind.ofName v.parameter = .identifier) (plain' : Kind.ofName v.enum = .identifier)
    (ends : (Word.first ws).kind.endsValue = true) :
    (need .assignment).ReadsRow c (v.words ++ ws) ws fun n =>
      ∃ flags, n.unplaced = v.tree flags := by
  have literal : objectLiteral.ReadsRow { c with depth := c.depth + 1 } (v.words ++ ws) ws fun n =>
      ∃ flags, n.unplaced = v.tree flags := by
    refine (objectLiteral_readsRow rfl rfl (v.members_readsRow room.nested plain plain')).mono ?_
    rintro _ ⟨ms, r, s, flags, ⟨hchildren, hends⟩, -, -, rfl⟩
    exact ⟨flags, by rw [Node.unplaced_mk, hchildren, Detail.unplaced, hends]; rfl⟩
  have begins : BeginsValue (v.words ++ ws) := ⟨.inr rfl, nofun⟩
  refine assignment_readsRow (room.mono (by decide)) begins ends
    (leftHandSide_readsRow ?_ (Kind.endsOperand_of_endsValue ends))
  refine chainHead_readsRow nofun (.bind .here fun start _ => .andThen .kind ?_)
  exact literal

end ReturnedValue

/-! ## Factories -/

/-- A factory as it is printed: a method with one parameter that returns a value. -/
structure FactoryTerm where
  name : String
  parameterType : TypeTerm
  /-- The name of the type that is returned. -/
  result : String
  value : ReturnedValue

namespace FactoryTerm

open FactorySync.Parser

variable {c : Context} {ws : List Word}

def bodyWords (t : FactoryTerm) : List Word :=
  .mark .openBrace '\x7b' :: (Word.keyword .returnKeyword).onNewLine ::
    (t.value.words ++ [.mark .semicolon ';', (Word.mark .closeBrace '\x7d').onNewLine])

def words (t : FactoryTerm) : List Word :=
  (Word.name t.name).onNewLine :: .mark .openParen '(' :: .name t.value.parameter ::
    .mark .colon ':' :: (t.parameterType.words ++ .mark .closeParen ')' :: .mark .colon ':' ::
      .name t.result :: t.bodyWords)

/-- The method. The flags are those of the returned value. -/
def tree (t : FactoryTerm) (flags : NodeFlags) : Node :=
  methodTree t.name
    [(parameterTree t.value.parameter t.parameterType.tree).inRole .parameters,
      (TypeTerm.reference t.result [] []).tree.inRole .returnType]
    (returnTree (t.value.tree flags))

/-- The names are no keywords, and the types fit. -/
structure Fits (t : FactoryTerm) : Prop where
  word : IsWord t.name
  parameter : IsWord t.value.parameter ∧ Kind.ofName t.value.parameter = .identifier
  enum : IsWord t.value.enum ∧ Kind.ofName t.value.enum = .identifier
  kind : IsWord t.value.kind
  parameterType : t.parameterType.Fits .whole
  result : IsWord t.result ∧ Kind.ofName t.result = .identifier

theorem body_readsRow {t : FactoryTerm} (fits : t.Fits) (room : c.Room 2) :
    requiredBody.ReadsRow c (t.bodyWords ++ ws) ws fun ns =>
      ∃ n m : Node, ns = [n.inRole .body] ∧
        (∃ flags, m.unplaced = returnTree (t.value.tree flags)) ∧ n.unplaced = blockTree m.unplaced := by
  have value : (need .assignment).ReadsRow c (t.value.words ++ .mark .semicolon ';' ::
      (Word.mark .closeBrace '\x7d').onNewLine :: ws) _ fun n =>
        ∃ flags, n.unplaced = t.value.tree flags :=
    t.value.readsRow room fits.parameter.2 fits.enum.2 rfl
  have row : t.bodyWords ++ ws = .mark .openBrace '\x7b' :: (Word.keyword .returnKeyword).onNewLine ::
      (t.value.words ++ .mark .semicolon ';' :: (Word.mark .closeBrace '\x7d').onNewLine :: ws) := by
    simp [bodyWords]
  have begins : BeginsValue (t.value.words ++ .mark .semicolon ';' ::
      (Word.mark .closeBrace '\x7d').onNewLine :: ws) := ⟨.inr rfl, nofun⟩
  have returns := (return_readsRow begins rfl value).mono fun n hn => by
    obtain ⟨m, ⟨flags, hm⟩, same⟩ := hn
    rw [hm] at same
    exact (⟨flags, same⟩ : ∃ flags, n.unplaced = returnTree (t.value.tree flags))
  rw [row]
  exact requiredBody_readsRow rfl rfl rfl returns

/-- The factory is read as a method. -/
theorem Fits.readsRow {t : FactoryTerm} (fits : t.Fits)
    (room : c.Room (t.parameterType.nesting + 2)) :
    objectMember.ReadsRow c (t.words ++ ws) ws fun n => ∃ flags, n.unplaced = t.tree flags := by
  have row : t.words ++ ws = (Word.name t.name).onNewLine :: .mark .openParen '(' ::
      .name t.value.parameter :: .mark .colon ':' :: (t.parameterType.words ++
        .mark .closeParen ')' :: .mark .colon ':' :: .name t.result :: (t.bodyWords ++ ws)) := by
    simp [words]
  have type := @TypeTerm.Fits.reads _ _ fits.parameterType c (.mark .closeParen ')' ::
    .mark .colon ':' :: .name t.result :: (t.bodyWords ++ ws)) (room.mono (by omega))
    (.of_kind (k := .closeParen) rfl (by decide))
  have result : (need .type).ReadsRow c (.name t.result :: (t.bodyWords ++ ws))
      (t.bodyWords ++ ws) fun n => n.unplaced = (TypeTerm.reference t.result [] []).tree := by
    have fitsType : TypeTerm.Fits .whole (.reference t.result [] []) :=
      .ofName fits.result.1 fits.result.2 nofun
    have reads := @TypeTerm.Fits.reads _ _ fitsType c (t.bodyWords ++ ws)
      (room.mono (show 1 ≤ _ by omega)) (.of_kind (k := .openBrace) rfl (by decide))
    rwa [TypeTerm.words_reference] at reads
  rw [row]
  refine (method_readsRow rfl (signature_readsRow fits.parameter.2 rfl type result)
    (body_readsRow fits (room.mono (by omega)))).mono fun n hn => ?_
  obtain ⟨m, ⟨flags, hm⟩, same⟩ := hn
  exact ⟨flags, by rw [same, hm]; rfl⟩

end FactoryTerm
end FactorySync
