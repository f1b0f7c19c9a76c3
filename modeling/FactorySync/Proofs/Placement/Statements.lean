import FactorySync.Parse.Statements
import FactorySync.Proofs.Placement.Expressions

/-!
# Declarations and statements wherever they stand
-/

namespace FactorySync
namespace Parser

open Parse
open Placement

variable {L : Placement} {start start' : Nat}

/-! ## Variables and functions -/

theorem definiteMark_alike : L.Alike definiteMark definiteMark L.SameMarks := by
  refine .andThen .afterLineBreak fun isAfter => ?_
  split
  · exact .pure .nil
  · exact .keepIf _ _

theorem variableDeclaration_alike : L.Alike variableDeclaration variableDeclaration L.SameNode := by
  refine .bind .here fun start start' hstart => .bind (.need rfl) fun name name' hname => ?_
  refine .bind definiteMark_alike fun exclamation exclamation' hexclamation => ?_
  refine .bind declaredType_alike fun type type' htype => ?_
  refine .bind initializer_alike fun value value' hvalue => .making fun stop => .pure ?_
  exact .marked hstart (.cons (hname.inRole _) (htype.append hvalue)) hexclamation rfl rfl rfl

theorem variableStatement_alike (place : L.SamePlace start start') (modifiers : Modifiers) :
    L.Alike (variableStatement start modifiers) (variableStatement start' modifiers) L.SameNode := by
  refine .bind .here fun listStart listStart' hlist => .andThen .kind fun word => ?_
  refine .andThen .advance fun _ => ?_
  refine .bind (.someByComma variableDeclaration_alike) fun declarations declarations' same => ?_
  refine .making fun listStop => .andThen .endStatement fun _ => .making fun stop => .pure ?_
  have list : L.SameNode
      { kind := .variableDeclarationList, span := ⟨listStart, listStop⟩
        flags := { isLet := word == .letKeyword, isConst := word == .constKeyword }
        children := declarations.map (·.inRole .declarations) }
      { kind := .variableDeclarationList, span := ⟨listStart', listStop + L.distance⟩
        flags := { isLet := word == .letKeyword, isConst := word == .constKeyword }
        children := declarations'.map (·.inRole .declarations) } :=
    .made hlist (SameNodes.inRole same _) rfl rfl rfl
  exact .made place (.cons (list.inRole _) .nil) rfl rfl rfl

theorem functionName_alike (isDefault : Bool) :
    L.Alike (functionName isDefault) (functionName isDefault) L.SameNodes := by
  refine .bind (optionalName_alike _) fun name name' hname => ?_
  rw [isEmpty_eq hname]
  dsimp only
  split
  · exact .pure hname
  · exact .andThen .note fun _ => .pure hname

theorem functionBody_alike : L.Alike functionBody functionBody L.SameNodes := by
  refine .andThen .kind fun k => ?_
  split
  · exact .bind block_alike fun body body' hbody => .pure (.cons (hbody.inRole _) .nil)
  · exact .andThen .endStatement fun _ => .pure .nil

theorem functionDeclaration_alike (place : L.SamePlace start start') (modifiers : Modifiers) :
    L.Alike (functionDeclaration start modifiers) (functionDeclaration start' modifiers)
      L.SameNode := by
  refine .andThen (.require _) fun _ => .bind (.keepIf _ _) fun asterisk asterisk' hasterisk => ?_
  refine .bind (functionName_alike _) fun name name' hname => ?_
  refine .bind signature_alike fun parts parts' hparts => ?_
  refine .bind functionBody_alike fun body body' hbody => .making fun stop => .pure ?_
  rw [hparts.lists]
  exact .marked place ((hname.append hparts.nodes).append hbody) hasterisk rfl rfl rfl

/-! ## Interfaces, type aliases, enums -/

theorem heritageType_alike : L.Alike heritageType heritageType L.SameNode := by
  refine .bind .here fun start start' hstart => .bind entityName_alike fun name name' hname => ?_
  refine .bind optionalTypeArguments_alike fun typed typed' htyped => .making fun stop => .pure ?_
  rw [htyped.lists]
  exact .made hstart (.cons (hname.inRole _) htyped.nodes) rfl rfl rfl

theorem heritageClause_alike : L.Alike heritageClause heritageClause L.SameNode := by
  refine .bind .here fun start start' hstart => .andThen .kind fun word => ?_
  refine .andThen .advance fun _ => .bind (.someByComma heritageType_alike) fun types types' same => ?_
  exact .making fun stop => .pure (.made hstart (SameNodes.inRole same _) rfl rfl rfl)

theorem heritageClauses_alike : L.Alike heritageClauses heritageClauses L.SameNodes := by
  refine .bind (.manyWhile ?_ heritageClause_alike) fun clauses clauses' same =>
    .pure (SameNodes.inRole same _)
  exact .andThen .kind fun _ => .pure rfl

theorem interfaceDeclaration_alike (place : L.SamePlace start start') (modifiers : Modifiers) :
    L.Alike (interfaceDeclaration start modifiers) (interfaceDeclaration start' modifiers)
      L.SameNode := by
  refine .andThen (.require _) fun _ => .bind identifier_alike fun name name' hname => ?_
  refine .bind typeParameters_alike fun typed typed' htyped => ?_
  refine .bind heritageClauses_alike fun clauses clauses' hclauses => ?_
  refine .bind typeMembers_alike fun members members' hmembers => .making fun stop => .pure ?_
  rw [htyped.lists]
  exact .made place (.cons (hname.inRole _) ((htyped.nodes.append hclauses).append hmembers)) rfl rfl rfl

theorem typeAliasDeclaration_alike (place : L.SamePlace start start') (modifiers : Modifiers) :
    L.Alike (typeAliasDeclaration start modifiers) (typeAliasDeclaration start' modifiers)
      L.SameNode := by
  refine .andThen (.require _) fun _ => .bind identifier_alike fun name name' hname => ?_
  refine .bind typeParameters_alike fun typed typed' htyped => .andThen (.require _) fun _ => ?_
  refine .bind (.need rfl) fun type type' htype => .andThen .endStatement fun _ => ?_
  refine .making fun stop => .pure ?_
  rw [htyped.lists]
  exact .made place (.cons (hname.inRole _) (htyped.nodes.append (.cons (htype.inRole _) .nil))) rfl rfl rfl

theorem enumMember_alike : L.Alike enumMember enumMember L.SameNode := by
  refine .bind .here fun start start' hstart => .bind propertyName_alike fun name name' hname => ?_
  refine .bind initializer_alike fun value value' hvalue => .node hstart ?_ rfl
  exact .cons (hname.inRole _) hvalue

theorem enumDeclaration_alike (place : L.SamePlace start start') (modifiers : Modifiers) :
    L.Alike (enumDeclaration start modifiers) (enumDeclaration start' modifiers) L.SameNode := by
  refine .andThen (.require _) fun _ => .bind identifier_alike fun name name' hname => ?_
  refine .andThen (.require _) fun _ => ?_
  refine .bind (.commaList _ enumMember_alike) fun members members' same => ?_
  refine .andThen (.require _) fun _ => .making fun stop => .pure ?_
  exact .made place (.cons (hname.inRole _) (SameNodes.inRole same _)) rfl rfl rfl

/-! ## Constructs outside the grammar -/

/-- The same brackets are open, and the same identifiers have been met. -/
structure SameSkipping (L : Placement) (s s' : Skipping) : Prop where
  depth : s'.depth = s.depth
  templates : s'.templates = s.templates
  previous : s'.previous = s.previous
  identifiers : L.SameNodes s.identifiers s'.identifiers

theorem countDown_alike (n : Nat) : L.Alike (countDown n) (countDown n) Eq := by
  cases n with
  | zero => exact fun _ _ _ _ _ _ _ _ hrun => nomatch hrun
  | succ n => exact .pure rfl

section Skipping

variable {s s' : Skipping}

/-- How one round ends: the construct goes on, or it is over. -/
abbrev SameRound (L : Placement) : Skipping ⊕ List Node → Skipping ⊕ List Node → Prop :=
  Sum.LiftRel (SameSkipping L) L.SameNodes

theorem skipToken_alike (h : SameSkipping L s s') :
    L.Alike (skipToken s) (skipToken s') (SameRound L) := by
  refine .andThen .kind fun previous => .andThen .advance fun _ => .pure (.inl ?_)
  exact ⟨h.depth, h.templates, rfl, h.identifiers⟩

theorem skipLastBrace_alike (word : Kind) (h : SameSkipping L s s') :
    L.Alike (skipLastBrace word s) (skipLastBrace word s') (SameRound L) := by
  refine .andThen .advance fun _ => .andThen .kind fun next => ?_
  split
  · exact .pure (.inl ⟨h.depth, h.templates, rfl, h.identifiers⟩)
  · exact .pure (.inr (List.rel_reverse h.identifiers))

theorem skipRound_alike (word : Kind) (h : SameSkipping L s s') :
    L.Alike (skipRound word s) (skipRound word s') (SameRound L) := by
  obtain ⟨depth, templates, previous, identifiers⟩ := s
  obtain ⟨depth', templates', previous', identifiers'⟩ := s'
  obtain ⟨rfl, rfl, rfl, same⟩ := h
  have ended : L.SameNodes identifiers.reverse identifiers'.reverse := List.rel_reverse same
  refine fun u u' like => .kind like ?_
  split
  case h_7 isName =>
    dsimp only
    split
    · refine (?_ : L.Alike _ _ (SameRound L)) like
      exact skipToken_alike ⟨rfl, rfl, rfl, same⟩
    · refine .bind (identifierHere_alike like (by rw [isName]; rfl)) fun found found' t t' hfound like => ?_
      exact .pure like (.inl ⟨rfl, rfl, rfl, .cons hfound same⟩)
  all_goals refine (?_ : L.Alike _ _ (SameRound L)) like
  · exact .pure (.inr ended)
  · exact skipToken_alike ⟨rfl, rfl, rfl, same⟩
  · exact skipToken_alike ⟨rfl, rfl, rfl, same⟩
  · exact skipToken_alike ⟨rfl, rfl, rfl, same⟩
  · exact skipToken_alike ⟨rfl, rfl, rfl, same⟩
  · dsimp only
    split
    · exact .andThen .advance fun _ => .pure (.inr ended)
    · exact skipToken_alike ⟨rfl, rfl, rfl, same⟩
  · dsimp only
    split
    · refine .andThen (.rescan _) fun _ => .andThen .kind fun next => ?_
      exact .andThen .advance fun _ => .pure (.inl ⟨rfl, rfl, rfl, same⟩)
    split
    · exact .pure (.inr ended)
    · refine .andThen (countDown_alike _) fun depth => ?_
      split
      · exact skipLastBrace_alike _ ⟨rfl, rfl, rfl, same⟩
      · exact skipToken_alike ⟨rfl, rfl, rfl, same⟩
  · dsimp only
    split
    · exact .pure (.inr ended)
    · exact .andThen (countDown_alike _) fun depth => skipToken_alike ⟨rfl, rfl, rfl, same⟩
  · dsimp only
    split
    · exact .pure (.inr ended)
    · exact .andThen (countDown_alike _) fun depth => skipToken_alike ⟨rfl, rfl, rfl, same⟩
  · exact skipToken_alike ⟨rfl, rfl, rfl, same⟩

end Skipping

theorem unsupportedName_alike (word : Kind) :
    L.Alike (unsupportedName word) (unsupportedName word) L.SameNodes := by
  refine fun s s' like => .kind like ?_
  split
  · next named =>
    have isName : s.token.kind = .identifier := beq_iff_eq.1 (Bool.and_eq_true_iff.1 named).2
    refine .bind (identifierHere_alike like (by rw [isName]; rfl)) fun name name' t t' hname like => ?_
    exact .pure like (.cons (hname.inRole _) .nil)
  · exact .pure like .nil

theorem unsupportedStatement_alike (place : L.SamePlace start start') (modifiers : Modifiers) :
    L.Alike (unsupportedStatement start modifiers) (unsupportedStatement start' modifiers)
      L.SameNode := by
  refine .andThen .kind fun word => .andThen .passOver fun _ => ?_
  refine .bind (unsupportedName_alike _) fun name name' hname => ?_
  refine .bind (.loop (R := SameSkipping L) (fun _ _ => skipRound_alike word) ⟨rfl, rfl, rfl, .nil⟩)
    fun identifiers identifiers' same => .making fun stop => .pure ?_
  exact .made place (hname.append (SameNodes.inRole same _)) rfl rfl rfl

/-! ## Imports -/

theorem attributesRound_alike (depth : Nat) :
    L.Alike (attributesRound depth) (attributesRound depth) (Sum.LiftRel Eq Eq) := by
  refine .andThen .kind fun k => ?_
  split
  · exact .pure (.inr rfl)
  · exact .andThen .advance fun _ => .pure (.inl rfl)
  · refine .andThen (countDown_alike _) fun depth => .andThen .advance fun _ => ?_
    split
    · exact .pure (.inr rfl)
    · exact .pure (.inl rfl)
  · exact .andThen .advance fun _ => .pure (.inl rfl)

theorem skipImportAttributes_alike : L.Alike skipImportAttributes skipImportAttributes Eq := by
  refine .bind .token fun t t' ht => ?_
  subst ht
  have rounds : L.Alike (loop attributesRound 0) (loop attributesRound 0) Eq :=
    .loop (R := Eq) (fun depth _ heq => heq ▸ attributesRound_alike depth) rfl
  show L.Alike (if _ then _ else _) (if ((t.kind == .withKeyword ||
    (t.kind == .identifier && t.value == "assert")) && !t.flags.afterLineBreak) = true
    then _ else _) Eq
  split
  · refine .andThen .advance fun _ => .andThen .kind fun k => ?_
    split
    · exact rounds
    · exact .pure rfl
  · exact .pure rfl

theorem specifierType_alike : L.Alike specifierType specifierType Eq := by
  refine .andThen .kind fun k => .andThen (.nextIs _) fun isWord => ?_
  split
  · exact .andThen .advance fun _ => .pure rfl
  · exact .pure rfl

section Items

variable {localName localName' : Parser Node}

theorem specifiedNames_alike (h : L.Alike localName localName' L.SameNode) :
    L.Alike (specifiedNames localName) (specifiedNames localName') L.SameNodes := by
  refine .bind propertyWord_alike fun first first' hfirst => .andThen (.accept _) fun found => ?_
  split
  · refine .bind h fun name name' hname => .pure ?_
    exact .cons (hfirst.inRole _) (.cons (hname.inRole _) .nil)
  · exact .pure (.cons (hfirst.inRole _) .nil)

theorem moduleItem_alike {k : Kind} (h : L.Alike localName localName' L.SameNode)
    (neutral : k.isNeutral = true) :
    L.Alike (moduleItem k localName) (moduleItem k localName') L.SameNode := by
  refine .bind .here fun start start' hstart => .andThen specifierType_alike fun isTypeOnly => ?_
  refine .bind (specifiedNames_alike h) fun names names' same => .making fun stop => .pure ?_
  exact .made hstart same rfl rfl neutral

end Items

theorem namedImports_alike : L.Alike namedImports namedImports L.SameNode := by
  refine .bind .here fun start start' hstart => .andThen (.require _) fun _ => ?_
  refine .bind (.commaList _ (moduleItem_alike identifier_alike rfl)) fun items items' same => ?_
  exact .andThen (.require _) fun _ => .node hstart (SameNodes.inRole same _) rfl

/-- The names that are exported are names. -/
theorem namedExports_alike : L.Alike namedExports namedExports L.SameNode := by
  refine .bind .here fun start start' hstart => .andThen (.require _) fun _ => ?_
  refine .bind (.also (.commaList _ (moduleItem_alike propertyWord_alike rfl))
    fun leads _ exact _ _ hrun => commaList_forall leads (moduleItem_names leads) exact hrun)
    fun items items' same => .andThen (.require _) fun _ => .making fun stop => .pure ?_
  refine .ofParts hstart (SameNodes.inRole same.1 _) .nil rfl
    (fun _ _ mem => absurd mem List.not_mem_nil) rfl Kind.noConfusion ?_ Kind.noConfusion
  intro n kind detail children complete x hx
  rw [Node.ownNames, kind] at hx
  obtain ⟨item, mem, rfl⟩ := List.mem_map.1 hx
  have mem : item ∈ n.children := (List.mem_filter.1 mem).1
  obtain ⟨i, hi, rfl⟩ := List.mem_map.1 (children ▸ mem)
  obtain ⟨y, hy, word⟩ := same.2 i hi (complete.child mem).ofRole
  rw [show (i.inRole .elements).specifiedName? = some y from hy]
  exact word

theorem namespaceImport_alike : L.Alike namespaceImport namespaceImport L.SameNode := by
  refine .bind .here fun start start' hstart => .andThen .advance fun _ => ?_
  refine .andThen (.require _) fun _ => .bind identifier_alike fun name name' hname => ?_
  exact .node hstart (.cons (hname.inRole _) .nil) rfl

theorem isTypeImport_alike : L.Alike isTypeImport isTypeImport Eq := by
  refine .andThen .kind fun k => ?_
  split
  · refine .lookAhead (.andThen .advance fun _ => .andThen .kind fun next => ?_)
    split
    · exact .pure rfl
    · exact .pure rfl
    · exact .nextIs _
    · exact .pure rfl
  · exact .pure rfl

theorem namedBindings_alike : L.Alike namedBindings namedBindings L.SameNodes := by
  refine .andThen .kind fun k => ?_
  split
  · exact .bind namespaceImport_alike fun n n' same => .pure (.cons (same.inRole _) .nil)
  · exact .bind namedImports_alike fun n n' same => .pure (.cons (same.inRole _) .nil)
  · exact .andThen .note fun _ => .pure .nil

theorem otherBindings_alike (hasName : Bool) :
    L.Alike (otherBindings hasName) (otherBindings hasName) L.SameNodes := by
  cases hasName with
  | false => exact namedBindings_alike
  | true =>
    refine .andThen (.accept _) fun found => ?_
    split
    · exact namedBindings_alike
    · exact .pure .nil

theorem importClause_alike : L.Alike importClause importClause L.SameNode := by
  refine .bind .here fun start start' hstart => .andThen isTypeImport_alike fun isTypeOnly => ?_
  refine .andThen (.skipIf _) fun _ => .bind (optionalName_alike _) fun name name' hname => ?_
  rw [isEmpty_eq hname]
  refine .bind (otherBindings_alike _) fun bindings bindings' same => .making fun stop => .pure ?_
  exact .made hstart (hname.append same) rfl rfl rfl

theorem optionalClause_alike : L.Alike optionalClause optionalClause L.SameNodes := by
  refine .andThen .kind fun k => ?_
  split
  · exact .pure .nil
  · refine .bind importClause_alike fun clause clause' same => .andThen (.require _) fun _ => ?_
    exact .pure (.cons (same.inRole _) .nil)

/-- What an import declaration is like apart from the import it expresses. -/
theorem importDeclaration_parts : L.Alike importDeclaration importDeclaration fun n n' =>
    n.kind = .importDeclaration ∧ n.detail = .none ∧ (∀ c ∈ n.children, L.Good c) ∧
      n' = n.moved L.distance := by
  refine .bind .here fun start start' hstart => .andThen (.require _) fun _ => ?_
  refine .bind optionalClause_alike fun clause clause' hclause => ?_
  refine .bind moduleSpecifier_alike fun specifier specifier' hspecifier => ?_
  refine .andThen skipImportAttributes_alike fun _ => .andThen .endStatement fun _ => ?_
  have parts := SameNodes.append hclause (.cons (hspecifier.inRole .moduleSpecifier) .nil)
  refine .bind .lastEnd fun stop stop' hstop => .pure ⟨rfl, rfl, parts.good, ?_⟩
  rw [Node.moved_mk, parts.eq_map, hstart, hstop]
  rfl

theorem importDeclaration_alike : L.Alike importDeclaration importDeclaration L.SameNode := by
  intro s s' like k k' knots n t hrun
  obtain ⟨n', t', hrun', ⟨kind, detail, good, moved⟩, like'⟩ :=
    importDeclaration_parts like knots hrun
  refine ⟨n', t', hrun', ⟨L.make ⟨fun p strength => ?_, .inr fun x hx => ?_, fun _ x hx => ?_,
    fun _ => ?_, fun isLiteral => ?_⟩ good, moved⟩, like'⟩
  · rw [Node.strength?, Node.operator?, kind] at strength
    cases strength
  · exact absurd hx (identifierName?_ne rfl detail)
  · rw [Node.ownNames, kind] at hx
    cases hx
  · exact importDeclaration_proper knots.operands.leads like.exact hrun
  · rw [kind] at isLiteral
    cases isLiteral

theorem isImportEquals_alike : L.Alike isImportEquals isImportEquals Eq := by
  refine .lookAhead (.andThen .advance fun _ => .andThen (.accept _) fun isType => ?_)
  refine .andThen .kind fun next => ?_
  split
  · exact .pure rfl
  refine .andThen .kind fun name => ?_
  split
  · exact .andThen .advance fun _ => .andThen .kind fun _ => .pure rfl
  · exact .pure rfl

/-! ## Exports -/

theorem exportParts_alike : L.Alike exportParts exportParts L.SameNodes := by
  refine .andThen (.accept _) fun isAll => ?_
  split
  · refine .bind (.afterToken _ _ propertyWord_alike) fun clause clause' hclause => ?_
    refine .andThen (.require _) fun _ => ?_
    refine .bind moduleSpecifier_alike fun specifier specifier' hspecifier => .pure ?_
    exact SameNodes.append hclause (.cons (hspecifier.inRole _) .nil)
  · refine .bind namedExports_alike fun clause clause' hclause => ?_
    refine .bind (.afterToken _ _ moduleSpecifier_alike) fun specifier specifier' hspecifier => ?_
    exact .pure (.cons (hclause.inRole _) hspecifier)

theorem exportDeclaration_alike (place : L.SamePlace start start') :
    L.Alike (exportDeclaration start) (exportDeclaration start') L.SameNode := by
  refine .andThen (.require _) fun _ => .andThen (.accept _) fun isTypeOnly => ?_
  refine .bind exportParts_alike fun parts parts' same => .andThen skipImportAttributes_alike fun _ => ?_
  exact .andThen .endStatement fun _ => .making fun stop => .pure (.made place same rfl rfl rfl)

theorem exportAssignment_alike (place : L.SamePlace start start') :
    L.Alike (exportAssignment start) (exportAssignment start') L.SameNode := by
  refine .andThen (.require _) fun _ => .andThen (.accept _) fun isEquals => ?_
  refine .andThen (.requireUnless _ _) fun _ => .bind (.need rfl) fun value value' hvalue => ?_
  refine .andThen .endStatement fun _ => .making fun stop => .pure ?_
  exact .made place (.cons (hvalue.inRole _) .nil) rfl rfl rfl

/-! ## Control flow -/

theorem head_alike (word : Kind) : L.Alike (head word) (head word) L.SameNode := by
  refine .andThen (.require _) fun _ => .andThen (.require _) fun _ => ?_
  refine .bind expression_alike fun value value' hvalue => .andThen (.require _) fun _ => ?_
  exact .pure (hvalue.inRole _)

theorem ifStatement_alike : L.Alike ifStatement ifStatement L.SameNode := by
  refine .bind .here fun start start' hstart => .bind (head_alike _) fun condition condition' same => ?_
  refine .bind (.need rfl) fun whenTrue whenTrue' htrue => ?_
  refine .bind (.afterToken _ _ (.need rfl)) fun whenFalse whenFalse' hfalse => .node hstart ?_ rfl
  exact .cons same (.cons (htrue.inRole _) hfalse)

theorem optionalValue_alike : L.Alike optionalValue optionalValue L.SameNodes := by
  refine .andThen .atStatementEnd fun isEnd => ?_
  split
  · exact .pure .nil
  · exact .bind expression_alike fun value value' hvalue => .pure (.cons (hvalue.inRole _) .nil)

theorem returnStatement_alike : L.Alike returnStatement returnStatement L.SameNode := by
  refine .bind .here fun start start' hstart => .andThen (.require _) fun _ => ?_
  refine .bind optionalValue_alike fun value value' hvalue => .andThen .endStatement fun _ => ?_
  exact .node hstart hvalue rfl

theorem throwStatement_alike : L.Alike throwStatement throwStatement L.SameNode := by
  refine .bind .here fun start start' hstart => .andThen (.require _) fun _ => ?_
  refine .bind expression_alike fun value value' hvalue => .andThen .endStatement fun _ => ?_
  exact .node hstart (.cons (hvalue.inRole _) .nil) rfl

theorem caseValue_alike (isCase : Bool) :
    L.Alike (caseValue isCase) (caseValue isCase) L.SameNodes := by
  unfold caseValue
  split
  · exact .bind expression_alike fun value value' hvalue => .pure (.cons (hvalue.inRole _) .nil)
  · exact .pure .nil

theorem clause_alike : L.Alike clause clause L.SameNode := by
  refine .bind .here fun start start' hstart => .andThen .kind fun k => .andThen .advance fun _ => ?_
  refine .bind (caseValue_alike _) fun value value' hvalue => .andThen (.require _) fun _ => ?_
  refine .bind (statements_alike _) fun statements statements' same => .node hstart ?_ ?_
  · exact SameNodes.append hvalue same
  · split <;> rfl

theorem switchStatement_alike : L.Alike switchStatement switchStatement L.SameNode := by
  refine .bind .here fun start start' hstart => .bind (head_alike _) fun value value' hvalue => ?_
  refine .andThen (.require _) fun _ => .bind (.manyWhile ?_ clause_alike) fun clauses clauses' same => ?_
  · exact .andThen .kind fun _ => .pure rfl
  · exact .andThen (.require _) fun _ => .node hstart (.cons hvalue (SameNodes.inRole same _)) rfl

theorem optionalLabel_alike : L.Alike optionalLabel optionalLabel L.SameNodes := by
  refine .andThen .atStatementEnd fun isEnd => ?_
  split
  · exact .pure .nil
  · exact optionalName_alike _

theorem jumpStatement_alike : L.Alike jumpStatement jumpStatement L.SameNode := by
  refine .bind .here fun start start' hstart => .andThen .kind fun k => .andThen .advance fun _ => ?_
  refine .bind optionalLabel_alike fun label label' same => .andThen .endStatement fun _ => ?_
  exact .node hstart same (by split <;> rfl)

theorem expressionStatement_alike : L.Alike expressionStatement expressionStatement L.SameNode := by
  refine .andThen .kind fun k => .andThen (.nextIs _) fun isLabel => ?_
  split
  · exact .andThen .advance fun _ => .andThen .advance fun _ => .need rfl
  · refine .bind .here fun start start' hstart => .bind expression_alike fun value value' hvalue => ?_
    exact .andThen .endStatement fun _ => .node hstart (.cons (hvalue.inRole _) .nil) rfl

/-! ## Any statement -/

theorem declaration_alike : L.Alike declaration declaration L.SameNode := by
  refine .bind .here fun start start' hstart => .andThen modifiers_alike fun modifiers => ?_
  refine .andThen .kind fun k => ?_
  split
  any_goals exact variableStatement_alike hstart _
  any_goals exact unsupportedStatement_alike hstart _
  · exact functionDeclaration_alike hstart _
  · exact interfaceDeclaration_alike hstart _
  · exact typeAliasDeclaration_alike hstart _
  · exact enumDeclaration_alike hstart _
  · exact .andThen .note fun _ => expressionStatement_alike

theorem isDefaultDeclaration_alike : L.Alike isDefaultDeclaration isDefaultDeclaration Eq := by
  refine .lookAhead (.andThen .advance fun _ => .andThen .advance fun _ => .andThen .kind fun k => ?_)
  split
  any_goals exact .pure rfl
  exact .nextOnLineIs _

theorem isTypeExport_alike : L.Alike isTypeExport isTypeExport Eq :=
  .lookAhead (.andThen .advance fun _ => .nextIs _)

theorem exportStatement_alike : L.Alike exportStatement exportStatement L.SameNode := by
  refine .bind .here fun start start' hstart => ?_
  refine .andThen (.lookAhead (.andThen .advance fun _ => .kind)) fun next => ?_
  split
  any_goals exact exportDeclaration_alike hstart
  any_goals exact unsupportedStatement_alike hstart _
  · refine .andThen isTypeExport_alike fun isNames => ?_
    split
    · exact exportDeclaration_alike hstart
    · exact declaration_alike
  · exact exportAssignment_alike hstart
  · refine .andThen isDefaultDeclaration_alike fun isDeclaration => ?_
    split
    · exact declaration_alike
    · exact exportAssignment_alike hstart
  · exact declaration_alike

theorem beginsDeclaration_alike : L.Alike beginsDeclaration beginsDeclaration Eq := by
  refine .andThen .kind fun k => ?_
  dsimp only
  split
  any_goals exact .nextOnLineIs _
  exact .pure rfl

theorem importStatement_alike : L.Alike importStatement importStatement L.SameNode := by
  refine .bind .here fun start start' hstart => .andThen (.nextIs _) fun isCall => ?_
  split
  · exact expressionStatement_alike
  refine .andThen isImportEquals_alike fun isEquals => ?_
  split
  · exact unsupportedStatement_alike hstart _
  · exact importDeclaration_alike

theorem statement_alike : L.Alike statement statement L.SameNode := by
  refine fun s s' like => .here like (.kind like ?_)
  have hstart : L.SamePlace s.here (s.here + L.distance) := rfl
  split
  · next isSemicolon => exact .tokenNode like (isSemicolon ▸ rfl)
  all_goals refine (?_ : L.Alike _ _ L.SameNode) like
  any_goals exact unsupportedStatement_alike hstart _
  any_goals exact jumpStatement_alike
  · exact block_alike
  · exact variableStatement_alike hstart _
  · refine .andThen (.nextIs _) fun begins => ?_
    split
    · exact variableStatement_alike hstart _
    · exact expressionStatement_alike
  · refine .andThen (.nextIs _) fun isEnum => ?_
    split
    · exact declaration_alike
    · exact variableStatement_alike hstart _
  · exact functionDeclaration_alike hstart _
  · exact enumDeclaration_alike hstart _
  · exact ifStatement_alike
  · exact returnStatement_alike
  · exact throwStatement_alike
  · exact switchStatement_alike
  · exact importStatement_alike
  · exact exportStatement_alike
  · refine .andThen beginsDeclaration_alike fun begins => ?_
    split
    · exact declaration_alike
    · exact expressionStatement_alike

end Parser
end FactorySync
