import FactorySync.Parse.File
import FactorySync.Proofs.Totality.Expressions

/-!
# Statements and whole files are read to the end
-/

namespace FactorySync
namespace Parser

open Parse

variable {limit rank : Nat} {s : State}

/-! ## Variables and functions -/

theorem definiteMark_total : definiteMark.Total rank := by
  refine .bind (.view _) fun afterLineBreak => ?_
  split
  · exact .pure _
  · exact .keepIf _ _

theorem variableDeclaration_total : variableDeclaration.Total (rank + 1) := by
  refine .bind (.view _) fun start => .bind .need fun name => ?_
  refine .bind definiteMark_total fun exclamation => .bind declaredType_total fun type => ?_
  exact .bind initializer_total fun value => .bind .node fun n => .pure _

theorem variableStatement_total (start : Nat) (modifiers : Modifiers) :
    (variableStatement start modifiers).Total (rank + 1) := by
  refine .bind (.view _) fun listStart => .bind (.view _) fun word => .bind .advance fun _ => ?_
  refine .bind (.someByComma variableDeclaration_total) fun declarations => ?_
  refine .bind .node fun list => .bind .endStatement fun _ => ?_
  exact .bind .node fun n => .pure _

theorem functionName_total (isDefault : Bool) : (functionName isDefault).Total rank := by
  refine .bind (optionalName_total _) fun name => ?_
  split
  · exact .pure _
  · exact .bind .note fun _ => .pure _

theorem functionBody_total : functionBody.Total rank := by
  intro limit s h
  rw [functionBody, answers_kind]
  split
  · next brace => exact .bind (block_answers.2.answers h brace) fun _ _ _ _ => .pure trivial
  · exact Total.bind .endStatement (fun _ => .pure _) h

theorem functionDeclaration_total (start : Nat) (modifiers : Modifiers) :
    (functionDeclaration start modifiers).Total rank := by
  refine .bind (.require _) fun _ => .bind (.keepIf _ _) fun asterisk => ?_
  refine .bind (functionName_total _) fun name => .bind signature_total fun parts => ?_
  exact .bind functionBody_total fun body => .bind .node fun n => .pure _

/-! ## Interfaces, type aliases, enums -/

theorem heritageType_total : heritageType.Total rank := by
  refine .bind (.view _) fun start => .bind entityName_total fun name => ?_
  exact .bind optionalTypeArguments_total fun arguments => .bind .node fun n => .pure _

theorem heritageClause_consumes : heritageClause.Consumes (· ≠ .endOfFile) := by
  refine .view fun start => .view fun word => .advance ?_ fun _ more => more
  exact .bind (.someByComma heritageType_total) fun types => .bind .node fun n => .pure _

theorem heritageClauses_total : heritageClauses.Total rank := by
  refine .bind (.manyWhile ?_) fun clauses => .pure _
  intro limit s h
  rw [answers_kind]
  refine .pure fun isClause => heritageClause_consumes.answers h fun atEnd => ?_
  simp [atEnd] at isClause

theorem interfaceDeclaration_total (start : Nat) (modifiers : Modifiers) :
    (interfaceDeclaration start modifiers).Total (rank + 1) := by
  refine .bind (.require _) fun _ => .bind identifier_total fun name => ?_
  refine .bind typeParameters_total fun typeParameters => ?_
  refine .bind heritageClauses_total fun clauses => ?_
  refine .bind (typeMembers_answers.1.mono (Nat.le_add_left _ _)) fun members => ?_
  exact .bind .node fun n => .pure _

theorem typeAliasDeclaration_total (start : Nat) (modifiers : Modifiers) :
    (typeAliasDeclaration start modifiers).Total (rank + 2) := by
  refine .bind (.require _) fun _ => .bind identifier_total fun name => ?_
  refine .bind typeParameters_total fun typeParameters => .bind (.require _) fun _ => ?_
  exact .bind .need fun type => .bind .endStatement fun _ => .bind .node fun n => .pure _

theorem enumMember_total : enumMember.Total rank := by
  refine .bind (.view _) fun start => .bind propertyName_total fun name => ?_
  exact .bind initializer_total fun value => .node

theorem enumDeclaration_total (start : Nat) (modifiers : Modifiers) :
    (enumDeclaration start modifiers).Total rank := by
  refine .bind (.require _) fun _ => .bind identifier_total fun name => ?_
  refine .bind (.require _) fun _ => .bind (.commaList enumMember_total) fun members => ?_
  exact .bind (.require _) fun _ => .bind .node fun n => .pure _

/-! ## Constructs outside the grammar -/

theorem skipToken_answers {skipping : Skipping} (h : Within limit rank s)
    (more : s.token.kind ≠ .endOfFile) :
    (skipToken skipping).Answers limit s fun result t =>
      result.isLeft = true → s.here < t.here := by
  rw [skipToken, answers_kind]
  exact h.go (h.advance more) fun _ t _ _ moved => .pure fun _ => moved

theorem skipLastBrace_answers {word : Kind} {skipping : Skipping} (h : Within limit rank s)
    (more : s.token.kind ≠ .endOfFile) :
    (skipLastBrace word skipping).Answers limit s fun result t =>
      result.isLeft = true → s.here < t.here := by
  refine h.go (h.advance more) fun _ t _ _ moved => ?_
  rw [answers_kind]
  split
  · exact .pure fun _ => moved
  · exact .pure nofun

/-- Every round that goes on consumes a token, and the depth is only counted down where a bracket is
open. -/
theorem skipRound_proceeds (word : Kind) (skipping : Skipping) :
    (skipRound word skipping).Proceeds rank := by
  intro limit s h
  rw [skipRound, answers_kind]
  split
  · exact .pure nofun
  · next hk => exact skipToken_answers h (by simp [hk])
  · next hk => exact skipToken_answers h (by simp [hk])
  · next hk => exact skipToken_answers h (by simp [hk])
  · next hk => exact skipToken_answers h (by simp [hk])
  · next hk =>
    split
    · exact h.run .advance fun _ _ _ _ => .pure nofun
    · exact skipToken_answers h (by simp [hk])
  · next hk =>
    split
    · exact skipToken_answers h (by simp [hk])
    · exact h.go (h.leaf (by simp [hk])) fun found t _ _ moved => .pure fun _ => moved
  · next hk =>
    have notAtEnd : s.token.kind ≠ .endOfFile := by simp [hk]
    split
    · refine h.go (h.rescan _) fun _ t h _ ⟨stays, more⟩ => ?_
      rw [answers_kind]
      exact h.go (h.advance (more notAtEnd)) fun _ u _ _ moved => .pure fun _ => stays ▸ moved
    split
    · exact .pure nofun
    · next isOpen =>
      refine .bind (.countDown isOpen) fun depth t _ ⟨_, stays⟩ => ?_
      subst stays
      split
      · exact skipLastBrace_answers h notAtEnd
      · exact skipToken_answers h notAtEnd
  case h_9 hk | h_10 hk =>
    split
    · exact .pure nofun
    · next isOpen =>
      refine .bind (.countDown isOpen) fun depth t _ ⟨_, stays⟩ => ?_
      subst stays
      exact skipToken_answers h (by simp [hk])
  · next notAtEnd _ _ _ _ _ _ _ _ _ => exact skipToken_answers h notAtEnd

theorem unsupportedName_total (word : Kind) : (unsupportedName word).Total rank := by
  refine .bind (.view _) fun k => ?_
  split
  · exact .bind identifierHere_total fun name => .pure _
  · exact .pure _

theorem unsupportedStatement_total (start : Nat) (modifiers : Modifiers) :
    (unsupportedStatement start modifiers).Total rank := by
  refine .bind (.view _) fun word => .bind .passOver fun _ => ?_
  refine .bind (unsupportedName_total _) fun name => ?_
  refine .bind (.loop (skipRound_proceeds word) _) fun identifiers => ?_
  exact .bind .node fun n => .pure _

/-! ## Imports and exports -/

/-- A closing brace is only met behind the one that opens the attributes. -/
theorem attributes_answers (h : Within limit rank s) (opens : s.token.kind = .openBrace) :
    (loop attributesRound 0).Answers limit s fun _ _ => True := by
  refine .loop (fun depth t => depth = 0 → t.token.kind = .openBrace) (fun depth t h inside => ?_) h
    fun _ => opens
  rw [attributesRound, answers_kind]
  split
  · exact .pure trivial
  · next hk => exact h.go (h.advance (by simp [hk])) fun _ u _ _ moved => .pure ⟨moved, nofun⟩
  · next hk =>
    have isOpen : depth ≠ 0 := fun closed => nomatch hk.symm.trans (inside closed)
    refine .bind (.countDown isOpen) fun left u _ ⟨_, stays⟩ => ?_
    subst stays
    refine h.go (h.advance (by simp [hk])) fun _ v _ _ moved => ?_
    split
    · exact .pure trivial
    · next stillOpen => exact .pure ⟨moved, fun closed => absurd closed stillOpen⟩
  · next notAtEnd notOpening _ =>
    refine h.go (h.advance notAtEnd) fun _ u _ _ moved => .pure ⟨moved, fun closed => ?_⟩
    exact absurd (inside closed) notOpening

theorem skipImportAttributes_total : skipImportAttributes.Total rank := by
  refine .bind (.view _) fun t => ?_
  dsimp only
  split
  · refine .bind .advance fun _ => ?_
    intro limit s h
    rw [answers_kind]
    split
    · next opens => exact attributes_answers h opens
    · exact .pure trivial
  · exact .pure _

theorem specifierType_total : specifierType.Total rank := by
  refine .bind (.view _) fun k => .bind (Peeks.nextIs _).total fun beforeName => ?_
  split
  · exact .bind .advance fun _ => .pure _
  · exact .pure _

section Specifiers

variable {localName : Parser Node}

theorem specifiedNames_total (h : localName.Total rank) :
    (specifiedNames localName).Total rank := by
  refine .bind propertyWord_total fun first => .bind (.accept _) fun isRenamed => ?_
  split
  · exact .bind h fun name => .pure _
  · exact .pure _

theorem moduleItem_total {k : Kind} (h : localName.Total rank) :
    (moduleItem k localName).Total rank := by
  refine .bind (.view _) fun start => .bind specifierType_total fun isTypeOnly => ?_
  exact .bind (specifiedNames_total h) fun names => .bind .node fun n => .pure _

theorem moduleItems_total {list item : Kind} (h : localName.Total rank) :
    (moduleItems list item localName).Total rank := by
  refine .bind (.view _) fun start => .bind (.require _) fun _ => ?_
  refine .bind (.commaList (moduleItem_total h)) fun items => .bind (.require _) fun _ => ?_
  exact .node

end Specifiers

theorem namedImports_total : namedImports.Total rank := moduleItems_total identifier_total

theorem namedExports_total : namedExports.Total rank := moduleItems_total propertyWord_total

theorem namespaceImport_total : namespaceImport.Total rank := by
  refine .bind (.view _) fun start => .bind .advance fun _ => .bind (.require _) fun _ => ?_
  exact .bind identifier_total fun name => .node

theorem isTypeImport_peeks : isTypeImport.Peeks rank := by
  refine .bind (.view _) fun k => ?_
  split
  · refine .lookAhead (.bind .advance fun _ => .bind (.view _) fun next => ?_)
    split
    all_goals first | exact .pure _ | exact (Peeks.nextIs _).total
  · exact .pure _

theorem namedBindings_total : namedBindings.Total rank := by
  refine .bind (.view _) fun k => ?_
  split
  · exact .bind namespaceImport_total fun n => .pure _
  · exact .bind namedImports_total fun n => .pure _
  · exact .bind .note fun _ => .pure _

theorem otherBindings_total (hasName : Bool) : (otherBindings hasName).Total rank := by
  cases hasName with
  | false => exact namedBindings_total
  | true =>
    refine .bind (.accept _) fun comma => ?_
    split
    · exact namedBindings_total
    · exact .pure _

theorem importClause_total : importClause.Total rank := by
  refine .bind (.view _) fun start => .bind isTypeImport_peeks.total fun isTypeOnly => ?_
  refine .bind (.skipIf _) fun _ => .bind (optionalName_total _) fun name => ?_
  exact .bind (otherBindings_total _) fun bindings => .bind .node fun n => .pure _

theorem optionalClause_total : optionalClause.Total rank := by
  refine .bind (.view _) fun k => ?_
  split
  · exact .pure _
  · exact .bind importClause_total fun clause => .bind (.require _) fun _ => .pure _

theorem importDeclaration_total : importDeclaration.Total rank := by
  refine .bind (.view _) fun start => .bind (.require _) fun _ => ?_
  refine .bind optionalClause_total fun clause => .bind moduleSpecifier_total fun specifier => ?_
  exact .bind skipImportAttributes_total fun _ => .bind .endStatement fun _ => .node

theorem isImportEquals_peeks : isImportEquals.Peeks rank := by
  refine .lookAhead (.bind .advance fun _ => .bind (.accept _) fun isType => ?_)
  refine .bind (.view _) fun next => ?_
  split
  · exact .pure _
  refine .bind (.view _) fun k => ?_
  split
  · exact .bind .advance fun _ => .bind (.view _) fun after => .pure _
  · exact .pure _

theorem exportParts_total : exportParts.Total rank := by
  refine .bind (.accept _) fun all => ?_
  split
  · refine .bind (afterToken_total propertyWord_total nofun) fun clause => ?_
    refine .bind (.require _) fun _ => ?_
    exact .bind moduleSpecifier_total fun specifier => .pure _
  · refine .bind namedExports_total fun clause => ?_
    exact .bind (afterToken_total moduleSpecifier_total nofun) fun specifier => .pure _

theorem exportDeclaration_total (start : Nat) : (exportDeclaration start).Total rank := by
  refine .bind (.require _) fun _ => .bind (.accept _) fun isTypeOnly => ?_
  refine .bind exportParts_total fun parts => .bind skipImportAttributes_total fun _ => ?_
  exact .bind .endStatement fun _ => .bind .node fun n => .pure _

theorem exportAssignment_total (start : Nat) : (exportAssignment start).Total (rank + 4) := by
  refine .bind (.require _) fun _ => .bind (.accept _) fun isEquals => ?_
  refine .bind (.requireUnless _ _) fun _ => .bind .need fun value => ?_
  exact .bind .endStatement fun _ => .bind .node fun n => .pure _

/-! ## Control flow -/

theorem head_consumes (word : Kind) (more : word ≠ .endOfFile) :
    (head word).Consumes (· = word) := by
  refine .require (.bind (.require _) fun _ => .bind expression_total fun value => ?_) more
  exact .bind (.require _) fun _ => .pure _

theorem ifStatement_consumes : ifStatement.Consumes (· = .ifKeyword) := by
  refine .view fun start => fun limit s h isIf => ?_
  refine h.after (head_consumes .ifKeyword nofun h isIf) fun condition => ?_
  refine .bind .need fun whenTrue => ?_
  exact .bind (afterToken_total .need nofun) fun whenFalse => .node

theorem optionalValue_total : optionalValue.Total (rank + 4) := by
  refine .bind Peeks.atStatementEnd.total fun atEnd => ?_
  split
  · exact .pure _
  · exact .bind expression_total fun value => .pure _

theorem returnStatement_total : returnStatement.Total (rank + 4) := by
  refine .bind (.view _) fun start => .bind (.require _) fun _ => ?_
  exact .bind optionalValue_total fun value => .bind .endStatement fun _ => .node

theorem throwStatement_total : throwStatement.Total (rank + 4) := by
  refine .bind (.view _) fun start => .bind (.require _) fun _ => ?_
  exact .bind expression_total fun value => .bind .endStatement fun _ => .node

theorem caseValue_total (isCase : Bool) : (caseValue isCase).Total (rank + 4) := by
  unfold caseValue
  split
  · exact .bind expression_total fun value => .pure _
  · exact .pure _

theorem clause_consumes : clause.Consumes (· ≠ .endOfFile) := by
  refine .view fun start => .view fun k => .advance ?_ fun _ more => more
  refine .bind (caseValue_total _) fun value => .bind (.require _) fun _ => ?_
  exact .bind (statements_total endsClause_endsStatements) fun statements => .node

theorem switchStatement_consumes : switchStatement.Consumes (· = .switchKeyword) := by
  refine .view fun start => fun limit s h isSwitch => ?_
  refine h.after (head_consumes .switchKeyword nofun h isSwitch) fun value => ?_
  refine .bind (.require _) fun _ => ?_
  refine .bind (.manyWhile ?_) fun clauses => .bind (.require _) fun _ => .node
  intro limit s h
  rw [answers_kind]
  refine .pure fun isClause => clause_consumes.answers h fun atEnd => ?_
  simp [atEnd] at isClause

theorem optionalLabel_total : optionalLabel.Total rank := by
  refine .bind Peeks.atStatementEnd.total fun atEnd => ?_
  split
  · exact .pure _
  · exact optionalName_total _

theorem jumpStatement_total : jumpStatement.Total rank := by
  refine .bind (.view _) fun start => .bind (.view _) fun k => .bind .advance fun _ => ?_
  exact .bind optionalLabel_total fun label => .bind .endStatement fun _ => .node

theorem expressionStatement_total : expressionStatement.Total (rank + 4) := by
  intro limit s h
  rw [expressionStatement, answers_kind]
  refine (Peeks.nextIs _).go h fun beforeColon => ?_
  split
  · next isLabel =>
    have isName : s.token.kind.isName = true := (Bool.and_eq_true_iff.1 isLabel).1
    refine (h.after (h.advance (Kind.ne_endOfFile isName rfl)) fun _ => ?_).forget
    exact .bind .advance fun _ => .need
  · refine Total.bind (.view _) (fun start => .bind expression_total fun value => ?_) h
    exact .bind .endStatement fun _ => .node

/-! ## Any statement -/

theorem declaration_total : declaration.Total (rank + 4) := by
  refine .bind (.view _) fun start => .bind modifiers_total fun modifiers => ?_
  refine .bind (.view _) fun k => ?_
  split
  · exact variableStatement_total _ _
  · exact variableStatement_total _ _
  · exact variableStatement_total _ _
  · exact functionDeclaration_total _ _
  · exact interfaceDeclaration_total _ _
  · exact typeAliasDeclaration_total _ _
  · exact enumDeclaration_total _ _
  case h_14 => exact .bind .note fun _ => expressionStatement_total
  all_goals exact unsupportedStatement_total _ _

theorem isDefaultDeclaration_peeks : isDefaultDeclaration.Peeks rank := by
  refine .lookAhead (.bind .advance fun _ => .bind .advance fun _ => .bind (.view _) fun k => ?_)
  split
  all_goals first | exact .pure _ | exact (Peeks.nextOnLineIs _).total

theorem isTypeExport_peeks : isTypeExport.Peeks rank :=
  .lookAhead (.bind .advance fun _ => (Peeks.nextIs _).total)

theorem exportStatement_total : exportStatement.Total (rank + 4) := by
  refine .bind (.view _) fun start => ?_
  refine .bind (Peeks.lookAhead (.bind .advance fun _ => .view _)).total fun next => ?_
  split
  · exact exportDeclaration_total _
  · exact exportDeclaration_total _
  · refine .bind isTypeExport_peeks.total fun isExport => ?_
    split
    · exact exportDeclaration_total _
    · exact declaration_total
  · exact exportAssignment_total _
  · refine .bind isDefaultDeclaration_peeks.total fun isDeclaration => ?_
    split
    · exact declaration_total
    · exact exportAssignment_total _
  · exact unsupportedStatement_total _ _
  · exact unsupportedStatement_total _ _
  · exact declaration_total

theorem beginsDeclaration_peeks : beginsDeclaration.Peeks rank := by
  refine .bind (.view _) fun k => ?_
  split
  all_goals first | exact .nextOnLineIs _ | exact .pure _

theorem importStatement_total : importStatement.Total (rank + 4) := by
  refine .bind (.view _) fun start => .bind (Peeks.nextIs _).total fun isExpression => ?_
  split
  · exact expressionStatement_total
  refine .bind isImportEquals_peeks.total fun isEquals => ?_
  split
  · exact unsupportedStatement_total _ _
  · exact importDeclaration_total

theorem statement_total : statement.Total (rank + 4) := by
  intro limit s h
  rw [statement, answers_here, answers_kind]
  split
  · exact Total.tokenNode h
  · next brace => exact (block_answers.2.answers h brace).forget
  · exact variableStatement_total _ _ h
  · refine (Peeks.nextIs _).go h fun isDeclaration => ?_
    split
    · exact variableStatement_total _ _ h
    · exact expressionStatement_total h
  · refine (Peeks.nextIs _).go h fun isEnum => ?_
    split
    · exact declaration_total h
    · exact variableStatement_total _ _ h
  · exact functionDeclaration_total _ _ h
  · exact enumDeclaration_total _ _ h
  · next isIf => exact (ifStatement_consumes.answers h isIf).forget
  · exact returnStatement_total h
  · exact throwStatement_total h
  · next isSwitch => exact (switchStatement_consumes.answers h isSwitch).forget
  · exact jumpStatement_total h
  · exact jumpStatement_total h
  · exact importStatement_total h
  · exact exportStatement_total h
  case h_24 =>
    refine beginsDeclaration_peeks.go h fun isDeclaration => ?_
    split
    · exact declaration_total h
    · exact expressionStatement_total h
  all_goals exact unsupportedStatement_total _ _ h

/-! ## Goals -/

/-- The production of a goal asks for goals of a lower rank only, unless it has consumed a token. -/
theorem produce_answers (goal : Goal) (h : Within limit goal.rank s) (begins : goal.MayBegin s) :
    (produce goal).Answers limit s fun _ _ => True := by
  cases goal with
  | statement => exact statement_total h
  | assignment => exact Total.deeper assignment_total h
  | binary strength => exact binary_total strength h
  | unary => exact unary_total h
  | construction => exact (construction_consumes.answers h (begins rfl)).forget
  | type => exact typeAt_total false h
  | boundType => exact typeAt_total true h
  | typeOperand => exact typeOperand_total h
  | bindingName => exact bindingName_total h

/-- The more goals may be nested, the more a goal may be worth. -/
theorem knot_grants (n : Nat) : (knot n).Grants n := by
  induction n with
  | zero => exact fun _ _ _ _ lt => absurd lt (Nat.not_lt_zero _)
  | succ n ih =>
    intro goal s ready begins lt
    have within : Within n goal.rank s := ⟨ready, Nat.le_of_lt_succ lt⟩
    obtain ⟨tree, t, hrun, -⟩ := produce_answers goal within begins (knot_leads n) ih
    exact ⟨tree, t, hrun⟩

end Parser
end FactorySync
