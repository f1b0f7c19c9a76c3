import FactorySync.Parse.File
import FactorySync.Proofs.Grammar.Expressions

/-!
# Statements and files stand for what they were read from

The upper half of the grammar, one lemma for each production. Main statement: in a file without
errors the statements stand, one after the other, for parts of what was read
(`SourceFile.reads_statements`).
-/

namespace FactorySync
namespace Parser

open Parse

/-! ## Variables and functions -/

theorem definiteMark_reads : definiteMark.ReadsMarks := by
  intro s valid
  rw [definiteMark, afterLineBreak, yields_view]
  split
  · exact .pure (Laid.start valid)
  · exact keepIf_reads _ _ valid

theorem variableDeclaration_reads : variableDeclaration.ReadsNode := by
  intro s valid
  rw [variableDeclaration, yields_here]
  refine (Laid.start valid).read (need_reads _) fun name t h => ?_
  refine h.readMarks definiteMark_reads fun exclamation u h => ?_
  refine h.readAll declaredType_reads fun type v h => h.readAll initializer_reads fun value w h => ?_
  exact .pure (h.closeMarked [] exclamation [name.inRole .name] (type ++ value) rfl rfl rfl rfl rfl
    (by simp))

section Declarations

variable {s t : State} {moved : Bool} {modifiers : Modifiers}

theorem variableStatement_reads (h : Laid moved s.toReading [] t.toReading) :
    (variableStatement s.here modifiers).Yields t fun n u =>
      Laid true s.toReading [n] u.toReading := by
  rw [variableStatement, yields_here, yields_kind]
  refine (Laid.start h.end_valid).advance fun u list => ?_
  refine list.readAll (someByComma_reads variableDeclaration_reads) fun declarations v list => ?_
  rw [yields_node]
  have h := h.append_moved (list.close (n := {
    kind := .variableDeclarationList, span := ⟨t.here, v.lastEnd⟩
    flags := {
      isLet := t.token.kind == .letKeyword
      isConst := t.token.kind == .constKeyword }
    children := declarations.map (·.inRole .declarations) }) rfl rfl rfl (by simp))
  exact h.skip fun _ w h => .pure (h.close rfl rfl rfl (by simp))

theorem functionName_reads {isDefault : Bool} : (functionName isDefault).ReadsNodes := by
  intro s valid
  refine (Laid.start valid).readAll (optionalName_reads _) fun name t h => ?_
  dsimp only
  split
  · exact .pure h
  · exact h.failed

theorem functionBody_reads : functionBody.ReadsNodes := by
  intro s valid
  rw [functionBody, yields_kind]
  split
  · exact (Laid.start valid).read block_reads fun body t h => .pure (h.loose (by simp))
  · exact (Laid.start valid).skip fun _ t h => .pure h

theorem functionDeclaration_reads (h : Laid moved s.toReading [] t.toReading) :
    (functionDeclaration s.here modifiers).Yields t
      fun n u => Laid true s.toReading [n] u.toReading := by
  refine h.require fun u h => h.readMarks (keepIf_reads _ _) fun asterisk v h => ?_
  refine h.readAll functionName_reads fun name w h => ?_
  refine h.readListedSome signature_reads fun lists parts x h => ?_
  exact h.readAll functionBody_reads fun body y h => .pure (h.closeMarked [] asterisk []
    (name ++ parts ++ body) rfl rfl rfl rfl rfl (by simp))

/-! ## Interfaces, type aliases, enums -/

theorem heritageType_reads : heritageType.ReadsNode := by
  intro s valid
  rw [heritageType, yields_here]
  refine (Laid.start valid).read entityName_reads fun name t h => ?_
  exact h.readListed optionalTypeArguments_reads fun lists arguments u h =>
    .pure (h.close rfl rfl rfl (by simp))

theorem heritageClause_reads : heritageClause.ReadsNode := by
  intro s valid
  rw [heritageClause, yields_here, yields_kind]
  refine (Laid.start valid).advance fun t h => ?_
  exact h.readAll (someByComma_reads heritageType_reads) fun types u h =>
    .pure (h.close rfl rfl rfl (by simp))

theorem heritageClauses_reads : heritageClauses.ReadsNodes := fun _ valid =>
  (Laid.start valid).readAll (manyWhile_reads heritageClause_reads) fun _ _ h =>
    .pure (h.list (by simp))

theorem interfaceDeclaration_reads (h : Laid moved s.toReading [] t.toReading) :
    (interfaceDeclaration s.here modifiers).Yields t
      fun n u => Laid true s.toReading [n] u.toReading := by
  refine h.require fun u h => h.read identifier_reads fun name v h => ?_
  refine h.readListed typeParameters_reads fun lists typeParameters w h => ?_
  refine h.readAll heritageClauses_reads fun clauses x h => ?_
  exact h.readSome typeMembers_reads fun members y h => .pure (h.close rfl rfl rfl (by simp))

theorem typeAliasDeclaration_reads (h : Laid moved s.toReading [] t.toReading) :
    (typeAliasDeclaration s.here modifiers).Yields t
      fun n u => Laid true s.toReading [n] u.toReading := by
  refine h.require fun u h => h.read identifier_reads fun name v h => ?_
  refine h.readListed typeParameters_reads fun lists typeParameters w h => h.require fun x h => ?_
  exact h.read (need_reads _) fun type y h => h.skip fun _ z h =>
    .pure (h.close rfl rfl rfl (by simp))

theorem enumMember_reads : enumMember.ReadsNode := by
  intro s valid
  rw [enumMember, yields_here]
  refine (Laid.start valid).read propertyName_reads fun name t h => ?_
  exact h.readAll initializer_reads fun value u h => .pure (h.close rfl rfl rfl (by simp))

theorem enumDeclaration_reads (h : Laid moved s.toReading [] t.toReading) :
    (enumDeclaration s.here modifiers).Yields t
      fun n u => Laid true s.toReading [n] u.toReading := by
  refine h.require fun u h => h.read identifier_reads fun name v h => h.require fun w h => ?_
  refine h.readAll (commaList_reads enumMember_reads) fun members x h => ?_
  exact h.require fun y h => .pure (h.close rfl rfl rfl (by simp))

end Declarations

/-! ## Constructs outside the grammar -/

theorem skipToken_reads {r : Reading} {k : Skipping} {s : State}
    (h : Laid false r k.identifiers.reverse s.toReading) :
    (skipToken k).Yields s fun next t => next.elim
      (fun k' => Laid false r k'.identifiers.reverse t.toReading)
      (fun found => Laid false r found t.toReading) := by
  rw [skipToken, yields_kind]
  exact h.skip fun _ t h => .pure h

theorem skipRound_reads {word : Kind} {r : Reading} {k : Skipping} {s : State}
    (h : Laid false r k.identifiers.reverse s.toReading) :
    (skipRound word k).Yields s fun next t => next.elim
      (fun k' => Laid false r k'.identifiers.reverse t.toReading)
      (fun found => Laid false r found t.toReading) := by
  rw [skipRound, yields_kind]
  split
  · exact .pure h
  · exact skipToken_reads h
  · exact skipToken_reads h
  · exact skipToken_reads h
  · exact skipToken_reads h
  · split
    · exact h.skip fun _ t h => .pure h
    · exact skipToken_reads h
  · split
    · exact skipToken_reads h
    · exact h.read identifierHere_reads fun found t h => .pure (h.loose (by simp))
  · split
    · refine h.skip fun _ t h => ?_
      rw [yields_kind]
      exact h.skip fun _ u h => .pure h
    split
    · exact .pure h
    refine h.skip fun depth t h => ?_
    split
    · refine h.skip fun _ u h => ?_
      rw [yields_kind]
      split
      · exact .pure h
      · exact .pure h
    · exact skipToken_reads h
  · split
    · exact .pure h
    · exact h.skip fun depth t h => skipToken_reads h
  · split
    · exact .pure h
    · exact h.skip fun depth t h => skipToken_reads h
  · exact skipToken_reads h

theorem unsupportedName_reads (word : Kind) : (unsupportedName word).ReadsNodes := by
  intro s valid
  rw [unsupportedName, yields_kind]
  split
  · exact (Laid.start valid).read identifierHere_reads fun name t h => .pure (h.loose (by simp))
  · exact .pure (Laid.start valid)

theorem unsupportedStatement_reads {s t : State} {moved : Bool} {modifiers : Modifiers}
    (h : Laid moved s.toReading [] t.toReading) (more : t.token.kind ≠ .endOfFile) :
    (unsupportedStatement s.here modifiers).Yields t
      fun n u => Laid true s.toReading [n] u.toReading := by
  rw [unsupportedStatement, yields_kind]
  refine h.passOver more fun u h => h.readAll (unsupportedName_reads _) fun name v h => ?_
  have found_reads : (loop (skipRound t.token.kind) { previous := t.token.kind }).Yields v
      fun found w => Laid false v.toReading found w.toReading := by
    refine .loop (fun k w => Laid false v.toReading k.identifiers.reverse w.toReading)
      (fun k w h => skipRound_reads h) (Laid.start h.end_valid)
  refine .bind found_reads fun found w found_h => ?_
  have h : Laid true s.toReading _ _ := h.append found_h
  exact .pure (h.close rfl rfl rfl (by simp))

/-! ## Imports and exports -/

theorem specifiedNames_reads {localName : Parser Node} (hname : localName.ReadsNode) :
    (specifiedNames localName).ReadsSome := by
  intro s valid
  refine (Laid.start valid).read propertyWord_reads fun first t h => h.skip fun isRenamed u h => ?_
  split
  · exact h.read hname fun name v h => .pure (h.list (by simp))
  · exact .pure (h.list (by simp))

theorem moduleItem_reads {k : Kind} {localName : Parser Node}
    (hk : k.isSpecial = false) (hname : localName.ReadsNode) :
    (moduleItem k localName).ReadsNode := by
  intro s valid
  rw [moduleItem, yields_here]
  refine (Laid.start valid).skip fun isTypeOnly t h => ?_
  exact h.readSome (specifiedNames_reads hname) fun names u h =>
    .pure (h.close hk rfl rfl (by simp))

theorem moduleItems_reads {list item : Kind} {localName : Parser Node}
    (hlist : list.isSpecial = false) (hitem : item.isSpecial = false)
    (hname : localName.ReadsNode) : (moduleItems list item localName).ReadsNode := by
  intro s valid
  rw [moduleItems, yields_here]
  refine (Laid.start valid).require fun t h => ?_
  refine h.readAll (commaList_reads (moduleItem_reads hitem hname)) fun items u h => ?_
  exact h.require fun v h => .pure (h.close hlist rfl rfl (by simp))

theorem namedImports_reads : namedImports.ReadsNode :=
  moduleItems_reads rfl rfl identifier_reads

theorem namedExports_reads : namedExports.ReadsNode :=
  moduleItems_reads rfl rfl propertyWord_reads

theorem namespaceImport_reads : namespaceImport.ReadsNode := by
  intro s valid
  rw [namespaceImport, yields_here]
  refine (Laid.start valid).advance fun t h => h.require fun u h => ?_
  exact h.read identifier_reads fun name v h => .pure (h.close rfl rfl rfl (by simp))

theorem namedBindings_reads : namedBindings.ReadsSome := by
  intro s valid
  rw [namedBindings, yields_kind]
  have h := Laid.start valid
  split
  · exact h.read namespaceImport_reads fun bindings t h => .pure (h.list (by simp))
  · exact h.read namedImports_reads fun bindings t h => .pure (h.list (by simp))
  · exact h.failed

/-- An import without a default name has other bindings. -/
theorem otherBindings_reads {s : State} (valid : s.Valid) (hasName : Bool) :
    (otherBindings hasName).Yields s fun ns t => Laid (!hasName) s.toReading ns t.toReading := by
  cases hasName with
  | false => exact namedBindings_reads valid
  | true =>
    refine (Laid.start valid).skip fun more t h => ?_
    split
    · refine (namedBindings_reads h.end_valid).mono fun ns u more => ?_
      have h := h.append_moved more
      exact ⟨h.valid, h.reads, nofun⟩
    · exact .pure h

theorem importClause_reads : importClause.ReadsNode := by
  intro s valid
  rw [importClause, yields_here]
  refine (Laid.start valid).skip fun isTypeOnly t h => h.skip fun _ u h => ?_
  refine h.readAll (optionalName_reads _) fun name v h => ?_
  refine .bind (otherBindings_reads h.end_valid _) fun bindings w bindings_h => ?_
  have h : Laid true s.toReading ([] ++ name ++ bindings) w.toReading := by
    cases name with
    | nil => exact h.append_moved bindings_h
    | cons n ns => exact (h.append bindings_h).of_ne_nil nofun
  exact .pure (h.close rfl rfl rfl (by simp))

theorem optionalClause_reads : optionalClause.ReadsNodes := by
  intro s valid
  rw [optionalClause, yields_kind]
  have h := Laid.start valid
  split
  · exact .pure h
  · exact h.read importClause_reads fun clause t h => h.require fun u h => .pure (h.loose (by simp))

theorem importDeclaration_reads {s t : State} {moved : Bool}
    (h : Laid moved s.toReading [] t.toReading) :
    importDeclaration.Yields t fun n u => Laid true s.toReading [n] u.toReading := by
  rw [importDeclaration, yields_here]
  have whole := Laid.start h.end_valid
  refine whole.require fun u whole => whole.readAll optionalClause_reads fun clause v whole => ?_
  refine whole.read moduleSpecifier_reads fun specifier w whole => whole.skip fun _ x whole => ?_
  exact whole.skip fun _ y whole => .pure (h.append_moved (whole.close rfl rfl rfl (by simp)))

theorem exportParts_reads : exportParts.ReadsNodes := by
  intro s valid
  refine (Laid.start valid).skip fun isAll t h => ?_
  split
  · refine h.readAll (afterToken_reads propertyWord_reads) fun clause u h => h.require fun v h => ?_
    exact h.read moduleSpecifier_reads fun specifier w h => .pure (h.loose (by simp))
  · refine h.read namedExports_reads fun clause u h => ?_
    exact h.readAll (afterToken_reads moduleSpecifier_reads) fun specifier v h =>
      .pure (h.loose (by simp))

section Exports

variable {s t : State} {moved : Bool}

theorem exportDeclaration_reads (h : Laid moved s.toReading [] t.toReading) :
    (exportDeclaration s.here).Yields t fun n u => Laid true s.toReading [n] u.toReading := by
  refine h.require fun u h => h.skip fun isTypeOnly v h => ?_
  refine h.readAll exportParts_reads fun parts w h => h.skip fun _ x h => ?_
  exact h.skip fun _ y h => .pure (h.close rfl rfl rfl (by simp))

theorem exportAssignment_reads (h : Laid moved s.toReading [] t.toReading) :
    (exportAssignment s.here).Yields t fun n u => Laid true s.toReading [n] u.toReading := by
  refine h.require fun u h => h.skip fun isEquals v h => h.skip fun _ w h => ?_
  exact h.read (need_reads _) fun value x h => h.skip fun _ y h =>
    .pure (h.close rfl rfl rfl (by simp))

end Exports

/-! ## Control flow -/

theorem head_reads {word : Kind} : (head word).ReadsNode := by
  intro s valid
  refine (Laid.start valid).require fun t h => h.require fun u h => ?_
  refine h.read expression_reads fun value v h => h.require fun w h => .pure ?_
  exact h.of_plain rfl

theorem ifStatement_reads : ifStatement.ReadsNode := by
  intro s valid
  rw [ifStatement, yields_here]
  refine (Laid.start valid).read head_reads fun condition t h => ?_
  refine h.read (need_reads _) fun whenTrue u h => ?_
  exact h.readAll (afterToken_reads (need_reads _)) fun whenFalse v h =>
    .pure (h.close rfl rfl rfl (by simp))

theorem optionalValue_reads : optionalValue.ReadsNodes := by
  intro s valid
  refine (Laid.start valid).skip fun isOver t h => ?_
  split
  · exact .pure h
  · exact h.read expression_reads fun value u h => .pure (h.loose (by simp))

theorem returnStatement_reads : returnStatement.ReadsNode := by
  intro s valid
  rw [returnStatement, yields_here]
  refine (Laid.start valid).require fun t h => h.readAll optionalValue_reads fun value u h => ?_
  exact h.skip fun _ v h => .pure (h.close rfl rfl rfl (by simp))

theorem throwStatement_reads : throwStatement.ReadsNode := by
  intro s valid
  rw [throwStatement, yields_here]
  refine (Laid.start valid).require fun t h => h.read expression_reads fun value u h => ?_
  exact h.skip fun _ v h => .pure (h.close rfl rfl rfl (by simp))

theorem caseValue_reads (isCase : Bool) : (caseValue isCase).ReadsNodes := by
  intro s valid
  rw [caseValue]
  split
  · exact (Laid.start valid).read expression_reads fun value t h => .pure (h.loose (by simp))
  · exact .pure (Laid.start valid)

theorem clause_reads : clause.ReadsNode := by
  intro s valid
  rw [clause, yields_here, yields_kind]
  refine (Laid.start valid).advance fun t h => ?_
  refine h.readAll (caseValue_reads _) fun value u h => h.require fun v h => ?_
  refine h.readAll statements_reads fun statements w h => .pure (h.close ?_ rfl rfl (by simp))
  dsimp only
  split <;> rfl

theorem switchStatement_reads : switchStatement.ReadsNode := by
  intro s valid
  rw [switchStatement, yields_here]
  refine (Laid.start valid).read head_reads fun value t h => h.require fun u h => ?_
  refine h.readAll (manyWhile_reads clause_reads) fun clauses v h => ?_
  exact h.require fun w h => .pure (h.close rfl rfl rfl (by simp))

theorem optionalLabel_reads : optionalLabel.ReadsNodes := by
  intro s valid
  refine (Laid.start valid).skip fun isOver t h => ?_
  split
  · exact .pure h
  · exact (optionalName_reads _ h.end_valid).mono fun _ _ more => h.append more

theorem jumpStatement_reads : jumpStatement.ReadsNode := by
  intro s valid
  rw [jumpStatement, yields_here, yields_kind]
  refine (Laid.start valid).advance fun t h => h.readAll optionalLabel_reads fun label u h => ?_
  refine h.skip fun _ v h => .pure (h.close ?_ rfl rfl (by simp))
  dsimp only
  split <;> rfl

theorem expressionStatement_reads {s t : State} {moved : Bool}
    (h : Laid moved s.toReading [] t.toReading) :
    expressionStatement.Yields t fun n u => Laid true s.toReading [n] u.toReading := by
  rw [expressionStatement, yields_kind]
  refine h.skip fun isLabel u h => ?_
  split
  · exact h.advance fun v h => h.advance fun w h =>
      (need_reads _ h.end_valid).mono fun _ _ more => h.append more
  · rw [yields_here]
    refine (Laid.start h.end_valid).read expression_reads fun value v whole => ?_
    exact whole.skip fun _ w whole => .pure (h.append_moved (whole.close rfl rfl rfl (by simp)))

/-! ## Any statement -/

theorem declaration_reads : declaration.ReadsNode := by
  intro s valid
  rw [declaration, yields_here]
  refine (Laid.start valid).skip fun modifiers t h => ?_
  rw [yields_kind]
  split
  · exact variableStatement_reads h
  · exact variableStatement_reads h
  · exact variableStatement_reads h
  · exact functionDeclaration_reads h
  · exact interfaceDeclaration_reads h
  · exact typeAliasDeclaration_reads h
  · exact enumDeclaration_reads h
  case h_14 => exact h.failed
  all_goals next hk => exact unsupportedStatement_reads h (by simp [hk])

theorem exportStatement_reads {s : State} (valid : s.Valid) (more : s.token.kind ≠ .endOfFile) :
    exportStatement.Yields s fun n t => Laid true s.toReading [n] t.toReading := by
  rw [exportStatement, yields_here]
  have h := Laid.start valid
  refine .lookAhead fun next => ?_
  split
  · exact exportDeclaration_reads h
  · exact exportDeclaration_reads h
  · refine .lookAhead fun isTypes => ?_
    split
    · exact exportDeclaration_reads h
    · exact declaration_reads valid
  · exact exportAssignment_reads h
  · refine .lookAhead fun isDeclaration => ?_
    split
    · exact declaration_reads valid
    · exact exportAssignment_reads h
  · exact unsupportedStatement_reads h more
  · exact unsupportedStatement_reads h more
  · exact declaration_reads valid

theorem importStatement_reads {s : State} (valid : s.Valid) (more : s.token.kind ≠ .endOfFile) :
    importStatement.Yields s fun n t => Laid true s.toReading [n] t.toReading := by
  rw [importStatement, yields_here]
  have h := Laid.start valid
  refine .lookAhead fun isExpression => ?_
  split
  · exact expressionStatement_reads h
  refine .lookAhead fun isEquals => ?_
  split
  · exact unsupportedStatement_reads h more
  · exact importDeclaration_reads h

theorem statement_reads : statement.ReadsNode := by
  intro s valid
  rw [statement, yields_here, yields_kind]
  have h := Laid.start valid
  split
  · exact tokenNode_reads valid
  · exact block_reads valid
  · exact variableStatement_reads h
  · refine .lookAhead fun isBinding => ?_
    split
    · exact variableStatement_reads h
    · exact expressionStatement_reads h
  · refine .lookAhead fun isEnum => ?_
    split
    · exact declaration_reads valid
    · exact variableStatement_reads h
  · exact functionDeclaration_reads h
  · exact enumDeclaration_reads h
  · exact ifStatement_reads valid
  · exact returnStatement_reads valid
  · exact throwStatement_reads valid
  · exact switchStatement_reads valid
  · exact jumpStatement_reads valid
  · exact jumpStatement_reads valid
  · next hk => exact importStatement_reads valid (by simp [hk])
  · next hk => exact exportStatement_reads valid (by simp [hk])
  case h_24 =>
    refine h.skip fun isDeclaration t h => ?_
    split
    · exact (declaration_reads h.end_valid).mono fun _ _ more => h.append more
    · exact expressionStatement_reads h
  all_goals next hk => exact unsupportedStatement_reads h (by simp [hk])

/-! ## Files -/

theorem produce_reads (goal : Goal) : (produce goal).ReadsNode := by
  cases goal with
  | statement => exact statement_reads
  | assignment => exact deeper_reads assignment_reads
  | binary strength => exact binary_reads strength
  | unary => exact unary_reads
  | construction => exact construction_reads
  | type => exact typeAt_reads false
  | boundType => exact typeAt_reads true
  | typeOperand => exact typeOperand_reads
  | bindingName => exact bindingName_reads

/-- However deep goals are nested, what is read for them stands for what is consumed. -/
theorem knot_sound (n : Nat) : (knot n).Sound := by
  refine ⟨⟨n, rfl⟩, knot_leads n, ?_⟩
  induction n with
  | zero => exact nofun
  | succ n ih =>
    exact fun valid h clean => produce_reads _ valid ⟨⟨n, rfl⟩, knot_leads n, ih⟩ h clean

/-- What has been read of a file when its first token is the current one. -/
def firstReading (path : String) (text : List Char) : Reading :=
  ({ scanner := .ofText path text } : Reading).advance

theorem firstReading_sound (path : String) (text : List Char) :
    (firstReading path text).Sound text :=
  Reading.sound_advance (.zero text) nofun

/-- A file is read to its end. -/
theorem fileStatements_reads {path : String} {text : List Char} :
    fileStatements.Yields { scanner := .ofText path text, size := text.length } fun ns t =>
      Laid false (firstReading path text) ns t.toReading ∧ t.token.kind = .endOfFile := by
  rw [fileStatements, yields_advance]
  have h := Laid.start ⟨text, firstReading_sound path text⟩
  refine .loop (fun found t => Laid false (firstReading path text) found t.toReading)
    (fun found t h => ?_) h
  refine .bind ((statements_reads h.end_valid).and statements_ends) fun more u ⟨new, ends⟩ => ?_
  have h : Laid false _ _ u.toReading := h.append new
  rw [yields_kind]
  split
  · exact h.failed
  · next notBrace =>
    refine .pure ⟨h, ?_⟩
    simpa [Kind.endsBlock, notBrace] using ends

end Parser

namespace Diagnostics

theorem hasErrors_sort (ds : Diagnostics) : ds.sort.hasErrors = ds.hasErrors :=
  (List.mergeSort_perm ds _).any_eq

end Diagnostics

namespace SourceFile

open FactorySync.Parser Parse

@[simp] theorem parse_text (path : String) (text : List Char) : (parse path text).text = text := by
  rw [parse, parse?]
  cases fileStatements.run _ _ <;> rfl

@[simp] theorem parse_path (path : String) (text : List Char) : (parse path text).path = path := by
  rw [parse, parse?]
  cases fileStatements.run _ _ <;> rfl

/-- A file of which nothing could be read has errors. -/
theorem unread_hasErrors (path : String) (text : List Char) :
    (unread path text).hasErrors = true := rfl

/-- The statements of a file without errors stand for what was read, up to its end. -/
theorem reads_file {path : String} {text : List Char}
    (clean : (parse path text).hasErrors = false) :
    ∃ last, ReadsAll (firstReading path text) (parse path text).statements last ∧
      last.token.kind = .endOfFile := by
  rw [parse, parse?] at clean ⊢
  cases hrun : fileStatements.run (knot (allowance text.length))
      { scanner := .ofText path text, size := text.length } with
  | none =>
    rw [hrun] at clean
    exact absurd ((unread_hasErrors path text).symm.trans clean) Bool.noConfusion
  | some r =>
    rw [hrun] at clean
    have noted (d : Diagnostic) (hd : d ∈ r.2.notes.reverse ++ r.2.scanner.diagnostics) :
        d.isError = false := by
      have := (Diagnostics.hasErrors_sort _).symm.trans clean
      simpa using List.any_eq_false.1 this d hd
    have last_clean : r.2.Clean :=
      ⟨fun d hd => noted d (by simp [hd]), fun d hd => noted d (by simp [hd])⟩
    obtain ⟨laid, atEnd⟩ := fileStatements_reads (knot_sound _) hrun last_clean
    exact ⟨_, laid.reads, atEnd⟩

/-- The statements of a file without errors stand for what was read, in the order of the text. -/
theorem reads_statements {path : String} {text : List Char}
    (clean : (parse path text).hasErrors = false) :
    ∃ last, ReadsAll (firstReading path text) (parse path text).statements last := by
  obtain ⟨last, reads, -⟩ := reads_file clean
  exact ⟨last, reads⟩

end SourceFile
end FactorySync
