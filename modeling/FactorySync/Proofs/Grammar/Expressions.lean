import FactorySync.Parse.Expressions
import FactorySync.Proofs.Grammar.Types

/-!
# Expressions stand for what they were read from

One lemma for each production of expressions. Object literals are the one kind of node whose tokens
are accounted for completely: `objectMembers_reads` says that between the braces nothing is consumed
but the members and the commas after them.
-/

namespace FactorySync
namespace Parser

open Parse

/-! ## Functions -/

theorem arrowBody_reads : arrowBody.ReadsNode := by
  intro s valid
  rw [arrowBody, yields_kind]
  split
  · exact block_reads valid
  · exact need_reads _ valid

theorem simpleArrow_reads {s t : State} {moved isAsync : Bool}
    (h : Laid moved s.toReading [] t.toReading) :
    (simpleArrow s.here isAsync).Yields t fun n u => Laid true s.toReading [n] u.toReading := by
  refine h.skip fun _ u h => ?_
  refine .bind (identifierIf_spans h.end_valid) fun name v ⟨span, name_h⟩ => ?_
  have parameter := name_h.close (n := {
    role := .parameters, kind := .parameter, span := name.span,
    children := [name.inRole .name] }) rfl rfl span (by simp)
  refine (h.append parameter).require fun w h => h.read arrowBody_reads fun body x h => ?_
  exact .pure (h.close rfl rfl rfl (by simp))

theorem parenthesizedArrow_reads {s t : State} {moved isAsync : Bool}
    (h : Laid moved s.toReading [] t.toReading) :
    (parenthesizedArrow s.here isAsync).Yields t fun found u =>
      ∀ n, found = some n → Laid true s.toReading [n] u.toReading := by
  refine h.skip fun before u h => h.skip fun _ v h => ?_
  refine h.readListed typeParameters_reads fun lists typeParameters w h => ?_
  rw [yields_kind]
  split
  · refine h.readSome parameterList_reads fun parameters x h => ?_
    refine h.readAll returnType_reads fun result y h => ?_
    rw [yields_kind]
    refine h.skip fun isOver z h => h.skip fun after z h => ?_
    dsimp only
    split
    · refine h.advance fun z h => h.read arrowBody_reads fun body z h => .pure fun n hn => ?_
      cases hn
      exact h.close rfl rfl rfl (by simp)
    · exact .pure nofun
  · exact .pure nofun

theorem arrowFunction_reads : arrowFunction.ReadsFound := by
  intro s valid
  rw [arrowFunction, yields_here]
  refine (Laid.start valid).skip fun isAsync t h => h.skip fun isSimple u h => ?_
  split
  · exact .bind (simpleArrow_reads h) fun n v h => .pure fun m hm => by cases hm; exact h
  refine h.skip fun mayOpen v h => ?_
  split
  · refine .attempt ?_ nofun
    exact (parenthesizedArrow_reads h).mono fun found w hfound n hn m hm => hfound m (hn ▸ hm)
  · exact .pure nofun

theorem functionExpression_reads (isAsync : Bool) : (functionExpression isAsync).ReadsNode := by
  intro s valid
  rw [functionExpression, yields_here]
  refine (Laid.start valid).require fun t h => ?_
  refine h.readMarks (keepIf_reads _ _) fun asterisk u h => ?_
  refine h.readAll (optionalName_reads _) fun name v h => ?_
  refine h.readListedSome signature_reads fun lists parts w h => ?_
  exact h.read block_reads fun body x h => .pure (h.closeMarked [] asterisk []
    (name ++ parts ++ [body.inRole .body]) rfl rfl rfl rfl rfl (by simp))

/-! ## Object literals -/

theorem requiredBody_reads : requiredBody.ReadsSome := by
  intro s valid
  rw [requiredBody, yields_kind]
  split
  · exact (Laid.start valid).read block_reads fun body t h => .pure (h.list (by simp))
  · exact (Laid.start valid).failed

section Members

variable {s t : State} {name : Node}

theorem accessor_reads {word : Kind} (h : Laid true s.toReading [name] t.toReading) :
    (accessor s.here word name).Yields t fun n u =>
      n.kind.isSpecial = false ∧ Reads s.toReading n u.toReading := by
  have kind : Kind.isSpecial (if word = .getKeyword then .getAccessor else .setAccessor) = false := by
    split <;> rfl
  refine h.readSome parameterList_reads fun parameters u h => ?_
  refine h.readAll returnType_reads fun result v h => ?_
  exact h.readSome requiredBody_reads fun body w h => .pure ⟨kind, h.node kind rfl rfl (by simp)⟩

theorem method_reads {modifiers : Modifiers} {asterisk question : List Mark}
    (h : Laid true s.toReading
      (asterisk.map Mark.leaf ++ [name] ++ question.map Mark.leaf) t.toReading) :
    (method s.here modifiers name asterisk question).Yields t fun n u =>
      n.kind.isSpecial = false ∧ Reads s.toReading n u.toReading := by
  refine h.readListedSome signature_reads fun lists parts u h => ?_
  exact h.readSome requiredBody_reads fun body v h => .pure ⟨rfl, h.nodeMarked asterisk question
    [name] (parts ++ body) rfl rfl rfl rfl rfl (by simp)⟩

theorem property_reads (h : Laid true s.toReading [name] t.toReading) :
    (property s.here name).Yields t fun n u =>
      n.kind.isSpecial = false ∧ Reads s.toReading n u.toReading := by
  refine h.skip fun found u h => ?_
  split
  · exact h.read (need_reads _) fun value v h => .pure ⟨rfl, h.node rfl rfl rfl (by simp)⟩
  split
  · exact h.skip fun _ v h => .pure ⟨rfl, h.node rfl rfl rfl (by simp)⟩
  · exact h.failed

end Members

/-- A member stands for all that is consumed. -/
theorem objectMember_reads {s : State} (valid : s.Valid) :
    objectMember.Yields s fun n t =>
      n.kind.isSpecial = false ∧ Reads s.toReading n t.toReading := by
  rw [objectMember, yields_here]
  refine (Laid.start valid).skip fun isSpread t h => ?_
  split
  · exact h.read (need_reads _) fun value u h => .pure ⟨rfl, h.node rfl rfl rfl (by simp)⟩
  refine h.skip fun isAsync u h => h.readMarks (keepIf_reads _ _) fun asterisk v h => ?_
  refine h.skip fun word w h => h.read propertyName_reads fun name x h => ?_
  have name_h : Laid true s.toReading (asterisk.map Mark.leaf ++ [name.inRole .name])
    x.toReading := h.list (by simp)
  dsimp only
  split
  · exact accessor_reads (name_h.sublist (List.sublist_append_right _ _))
  · refine name_h.readMarks (keepIf_reads _ _) fun question y name_h => ?_
    rw [yields_kind]
    split
    · exact method_reads name_h
    · -- the property keeps neither mark
      exact property_reads (name_h.sublist
        (.trans (List.sublist_append_right _ _) (List.sublist_append_left _ _)))

/-- Between the braces nothing is consumed but members and the commas after them. -/
theorem objectMembers_reads {s : State} (valid : s.Valid) :
    objectMembers.Yields s fun members t =>
      ReadsMembers s.toReading (members.map (·.1)) (members.map (·.2)) t.toReading := by
  refine .loop (fun members t => none ∉ members.map (·.2) ∧
    ReadsMembers s.toReading (members.reverse.map (·.1)) (members.reverse.map (·.2)) t.toReading)
    ?_ ⟨List.not_mem_nil, .nil⟩
  intro members t ⟨separated, h⟩
  have separated' : none ∉ members.reverse.map (·.2) := by simpa using separated
  rw [yields_kind]
  split
  · exact .pure h
  next goesOn =>
  refine .bind ((objectMember_reads (h.run.valid valid)).and (.found _ t))
    fun member u ⟨⟨kind, member_h⟩, k, hrun, clean⟩ => ?_
  have parsed : Parsed t.toReading (member.inRole .properties) u.toReading :=
    ⟨kind, Bool.eq_false_iff.2 goesOn, k, t, u, member, hrun, clean, rfl, rfl, rfl⟩
  have member_h : Reads t.toReading (member.inRole .properties) u.toReading := member_h.of_plain rfl
  rw [yields_token]
  refine .bind accept_yields fun found v hv => ?_
  cases found with
  | true =>
    obtain ⟨comma, rfl⟩ := hv
    refine .pure ⟨by simpa using separated, ?_⟩
    simpa using h.append separated' (.cons parsed member_h comma .nil)
  | false =>
    subst hv
    exact .pure (by simpa using h.append separated' (.last parsed member_h))

theorem objectLiteral_reads : objectLiteral.ReadsNode := by
  intro s valid
  rw [objectLiteral, yields_here, yields_remaining]
  have h := Laid.start valid
  refine .bind h.due fun _ t ⟨opened, ht⟩ => ?_
  have t_valid : t.Valid := ht ▸ h.then_advance.end_valid
  refine .bind (objectMembers_reads t_valid) fun members u members_h => ?_
  have u_valid := members_h.run.valid t_valid
  refine .bind (Laid.start u_valid).due fun _ v ⟨closed, hv⟩ => ?_
  subst ht hv
  exact .pure (.of_reads valid (.literal rfl rfl rfl rfl rfl opened members_h closed))

/-! ## What begins with its own token -/

theorem expression_reads : expression.ReadsNode := by
  intro s valid
  rw [expression, yields_here]
  refine (Laid.start valid).read (need_reads _) fun first t h => ?_
  refine .loop (fun left u => Laid true s.toReading [left] u.toReading) (fun left u h => ?_) h
  rw [yields_kind]
  split
  · refine h.readMark (keep_reads _) fun mark v h => h.read (need_reads _) fun right w h => ?_
    exact .pure (h.closeMarked [] [mark] [left.inRole .left] [right.inRole .right] rfl rfl rfl rfl
      rfl (by simp))
  · exact .pure h

theorem templateSpans_reads : templateSpans.ReadsNodes := by
  intro s valid
  refine .loop (fun spans t => Laid false s.toReading spans.reverse t.toReading)
    (fun spans t h => ?_) (Laid.start valid)
  rw [yields_here]
  refine (Laid.start h.end_valid).read expression_reads fun value u span => ?_
  rw [yields_kind]
  split
  · refine span.skip fun _ v span => ?_
    rw [yields_token]
    refine span.advance fun w span => ?_
    rw [yields_node]
    have span := span.close (n := {
      kind := .templateSpan, span := ⟨t.here, w.lastEnd⟩, detail := .templateSpan v.token.value,
      children := [value.inRole .expression] }) rfl rfl rfl (by simp)
    dsimp only
    split
    · exact .pure ((h.append span).loose (by simp))
    · exact .pure ((h.append span).loose (by simp))
  · exact span.failed

theorem templateExpression_reads : templateExpression.ReadsNode := by
  intro s valid
  rw [templateExpression, yields_token]
  refine (Laid.start valid).advance fun t h => ?_
  exact h.readAll templateSpans_reads fun spans u h => .pure (h.close rfl rfl rfl (by simp))

theorem spreadable_reads : spreadable.ReadsNode := by
  intro s valid
  rw [spreadable, yields_here]
  refine (Laid.start valid).skip fun isSpread t h => ?_
  split
  · exact h.read (need_reads _) fun value u h => .pure (h.close rfl rfl rfl (by simp))
  · exact (need_reads _ h.end_valid).mono fun _ _ more => h.append more

theorem arrayLiteral_reads : arrayLiteral.ReadsNode := by
  intro s valid
  rw [arrayLiteral, yields_here]
  refine (Laid.start valid).require fun t h => ?_
  refine h.readAll (elementsWithHoles_reads (.inr rfl) spreadable_reads) fun elements u h => ?_
  exact h.require fun v h => .pure (h.close rfl rfl rfl (by simp))

theorem primary_reads : primary.ReadsNode := by
  intro s valid
  rw [primary, yields_here, yields_kind]
  have h := Laid.start valid
  split
  · exact sourceLiteral_reads valid
  · exact sourceLiteral_reads valid
  · exact stringLiteral_reads valid
  · exact plainTemplate_reads valid
  · exact templateExpression_reads valid
  · exact h.skip fun _ t h =>
      (sourceLiteral_reads h.end_valid).mono fun _ _ more => h.append more
  · exact h.skip fun _ t h =>
      (sourceLiteral_reads h.end_valid).mono fun _ _ more => h.append more
  · exact tokenNode_reads valid
  · exact tokenNode_reads valid
  · exact tokenNode_reads valid
  · exact tokenNode_reads valid
  · exact tokenNode_reads valid
  · exact tokenNode_reads valid
  · refine h.advance fun t h => h.read expression_reads fun value u h => ?_
    exact h.require fun v h => .pure (h.close rfl rfl rfl (by simp))
  · exact arrayLiteral_reads valid
  · exact objectLiteral_reads valid
  · exact functionExpression_reads _ valid
  · refine h.skip fun isFunction t h => ?_
    split
    · exact h.advance fun u h =>
        (functionExpression_reads _ h.end_valid).mono fun _ _ more => h.append more
    split
    · exact (identifierHere_reads h.end_valid).mono fun _ _ more => h.append more
    · exact h.failed

/-! ## Chains of accesses and calls -/

theorem argumentList_reads : argumentList.ReadsSome := by
  intro s valid
  refine (Laid.start valid).require fun t h => ?_
  refine h.readAll (commaList_reads spreadable_reads) fun arguments u h => ?_
  exact h.require fun v h => .pure (h.list (by simp))

section Links

variable {r : Reading} {s : State} {target : Node} {ns : List Node} {questionDot : List Mark}

/-- A link of a chain begins where its target does. -/
theorem link_reads {link : Parser Node} (h : Laid true r (target :: ns) s.toReading)
    (yields : ∀ r', target.span.start = r'.here → Laid true r' (target :: ns) s.toReading →
      link.Yields s fun n t => Laid true r' [n] t.toReading) :
    link.Yields s fun n t => Laid true r [n] t.toReading := by
  obtain ⟨r', run, start, h'⟩ := h.since_start
  exact (yields r' start h').mono fun n t hn => hn.after_run run h.valid

theorem propertyLink_reads (h : Laid true r (target :: questionDot.map Mark.leaf) s.toReading) :
    (propertyLink target questionDot).Yields s fun n t => Laid true r [n] t.toReading := by
  refine link_reads h fun r' start h => h.read propertyWord_reads fun name t h => ?_
  rw [start]
  exact .pure (h.closeMarked [] questionDot [target.inRole .expression] [name.inRole .name] rfl
    rfl rfl rfl rfl (by simp))

theorem elementLink_reads (h : Laid true r (target :: questionDot.map Mark.leaf) s.toReading) :
    (elementLink target questionDot).Yields s fun n t => Laid true r [n] t.toReading := by
  refine link_reads h fun r' start h => h.require fun t h => ?_
  refine h.read expression_reads fun index u h => h.require fun v h => ?_
  rw [start]
  exact .pure (h.closeMarked [] questionDot [target.inRole .expression]
    [index.inRole .argumentExpression] rfl rfl rfl rfl rfl (by simp))

theorem callLink_reads {typed : List Role × List Node}
    (h : Laid true r (target :: questionDot.map Mark.leaf ++ typed.2) s.toReading) :
    (callLink target questionDot typed).Yields s fun n t => Laid true r [n] t.toReading := by
  refine link_reads h fun r' start h => h.readSome argumentList_reads fun arguments t h => ?_
  rw [start]
  exact .pure (h.closeMarked [] questionDot [target.inRole .expression] (typed.2 ++ arguments) rfl
    rfl rfl rfl rfl (by simp))

theorem soundTypeArguments_reads {follow : Kind → Bool} (valid : s.Valid) :
    (soundTypeArguments follow).Yields s fun found t =>
      ∀ typed, found = some typed → Laid true s.toReading typed.2 t.toReading := by
  refine .attempt ?_ nofun
  refine (Laid.start valid).skip fun before t h => ?_
  refine h.readSome typeArguments_reads fun arguments u h => h.skip fun after v h => ?_
  rw [yields_kind]
  split
  · refine .pure fun typed hfound typed' htyped => ?_
    cases hfound
    cases htyped
    exact h
  · exact .pure nofun

theorem optionalLink_reads {allowCalls : Bool} (h : Laid true r [target] s.toReading) :
    (optionalLink target allowCalls).Yields s fun n t => Laid true r [n] t.toReading := by
  refine h.readMark (keep_reads _) fun mark t h => ?_
  rw [yields_kind]
  split
  · exact h.readListed optionalTypeArguments_reads fun lists arguments u h => callLink_reads h
  split
  · exact elementLink_reads h
  · exact propertyLink_reads h

theorem chain_reads {allowCalls : Bool} (h : Laid true r [target] s.toReading) :
    (chain allowCalls target).Yields s fun n t => Laid true r [n] t.toReading := by
  refine .loop (fun target t => Laid true r [target] t.toReading) (fun target t h => ?_) h
  rw [yields_kind]
  split
  · exact h.advance fun u h => .bind (propertyLink_reads h) fun n v h => .pure h
  · exact .bind (optionalLink_reads h) fun n v h => .pure h
  · exact .bind (elementLink_reads h) fun n v h => .pure h
  · refine h.skip fun isOver u h => ?_
    split
    · exact .pure h
    · obtain ⟨r', run, start, h'⟩ := h.since_start
      refine h'.advance fun v h' => ?_
      rw [start]
      exact .pure (Laid.after_run run h.valid (h'.close rfl rfl rfl (by simp)))
  · split
    · exact .bind (callLink_reads h) fun n v h => .pure h
    · exact .pure h
  · split
    · refine h.bind (soundTypeArguments_reads h.end_valid) fun found u hfound h' => ?_
      cases found with
      | none => exact .pure h'
      | some typed =>
        have := h.append (hfound typed rfl)
        exact .bind (callLink_reads this) fun n v h => .pure h
    · exact .pure h
  · exact .pure h

end Links

theorem chainHead_reads : chainHead.ReadsNode := by
  intro s valid
  rw [chainHead, yields_kind]
  split
  · exact need_reads _ valid
  · exact primary_reads valid

theorem constructionTypes_reads : constructionTypes.ReadsListed := by
  intro s valid
  rw [constructionTypes, yields_kind]
  have h := Laid.start valid
  split
  · refine h.bind (soundTypeArguments_reads valid) fun found t hfound h => .pure ?_
    cases found with
    | none => exact h
    | some typed => exact (hfound typed rfl).loose (by simp)
  · exact .pure h

theorem optionalArguments_reads : optionalArguments.ReadsListed := by
  intro s valid
  rw [optionalArguments, yields_kind]
  have h := Laid.start valid
  split
  · exact h.readSome argumentList_reads fun arguments t h => .pure (h.loose (by simp))
  · exact .pure h

theorem construction_reads : construction.ReadsNode := by
  intro s valid
  rw [construction, yields_here]
  -- the word becomes a node of its own in `new.target` only
  refine .bind (tokenNode_reads valid) fun word t word_h => word_h.skip fun isMeta u word_h => ?_
  split
  · exact word_h.read propertyWord_reads fun name v h => .pure (h.close rfl rfl rfl (by simp))
  have h := (⟨valid, .nil word_h.reads.run, word_h.consumed⟩ : Laid true s.toReading [] u.toReading)
  refine .bind (chainHead_reads h.end_valid) fun callee v callee_h => ?_
  refine .bind (chain_reads callee_h) fun callee w callee_h => ?_
  refine (h.append callee_h).readListed constructionTypes_reads fun typeLists typed x h => ?_
  refine h.readListed optionalArguments_reads fun lists arguments y h => ?_
  exact .pure (h.close rfl rfl rfl (by simp))

theorem leftHandSide_reads : leftHandSide.ReadsNode :=
  fun _ valid => .bind (chainHead_reads valid) fun _ _ h => chain_reads h

/-! ## Operators -/

section Operators

variable {s t : State} {moved : Bool}

theorem prefixed_reads (h : Laid moved s.toReading [] t.toReading) :
    (prefixed s.here).Yields t fun n u => Laid true s.toReading [n] u.toReading := by
  rw [prefixed, yields_kind]
  exact h.advance fun u h => h.read (need_reads _) fun operand v h =>
    .pure (h.close rfl rfl rfl (by simp))

theorem typeAssertion_reads (h : Laid moved s.toReading [] t.toReading) :
    (typeAssertion s.here).Yields t fun n u => Laid true s.toReading [n] u.toReading := by
  refine h.advance fun u h => h.read (need_reads _) fun type v h => h.require fun w h => ?_
  exact h.read (need_reads _) fun value x h => .pure (h.close rfl rfl rfl (by simp))

theorem postfixed_reads (h : Laid moved s.toReading [] t.toReading) :
    (postfixed s.here).Yields t fun n u => Laid true s.toReading [n] u.toReading := by
  refine h.read leftHandSide_reads fun operand u h => ?_
  rw [yields_kind]
  refine h.skip fun isOver v h => ?_
  split
  · exact h.advance fun w h => .pure (h.close rfl rfl rfl (by simp))
  · exact .pure h

end Operators

theorem unary_reads : unary.ReadsNode := by
  intro s valid
  rw [unary, yields_here, yields_kind]
  have h := Laid.start valid
  split
  all_goals try exact prefixed_reads h
  · refine h.skip fun isOperator t h => ?_
    split
    · exact prefixed_reads h
    · exact postfixed_reads h
  · exact typeAssertion_reads h
  · exact postfixed_reads h

theorem binary_reads (least : Nat) : (binary least).ReadsNode := by
  intro s valid
  rw [binary, yields_here]
  refine (Laid.start valid).read (need_reads _) fun first t h => ?_
  refine .loop (fun left u => Laid true s.toReading [left] u.toReading) (fun left u h => ?_) h
  refine h.skip fun _ v h => ?_
  rw [yields_kind]
  split
  · exact .pure h
  split
  · split
    · refine h.skip fun isOver w h => ?_
      split
      · exact .pure h
      · refine h.advance fun x h => h.read (need_reads _) fun type y h =>
          .pure (h.close ?_ rfl rfl (by simp))
        dsimp only
        split <;> rfl
    · refine h.readMark (keep_reads _) fun mark w h => h.read (need_reads _) fun right x h => ?_
      exact .pure (h.closeMarked [] [mark] [left.inRole .left] [right.inRole .right] rfl rfl rfl
        rfl rfl (by simp))
  · exact .pure h

theorem conditional_reads : conditional.ReadsNode := by
  intro s valid
  rw [conditional, yields_here]
  refine (Laid.start valid).read (need_reads _) fun condition t h => h.skip fun isChoice u h => ?_
  split
  · refine h.read (need_reads _) fun whenTrue v h => h.require fun w h => ?_
    exact h.read (need_reads _) fun whenFalse x h => .pure (h.close rfl rfl rfl (by simp))
  · exact .pure h

theorem assignment_reads : assignment.ReadsNode := by
  intro s valid
  refine (Laid.start valid).readFound arrowFunction_reads (fun function t h => .pure h)
    fun t h => ?_
  rw [yields_here]
  refine (Laid.start h.end_valid).read conditional_reads fun left u whole => ?_
  rw [yields_kind]
  split
  · refine whole.readMark (keep_reads _) fun mark v whole => ?_
    refine whole.read (need_reads _) fun right w whole => ?_
    exact .pure (h.append (whole.closeMarked [] [mark] [left.inRole .left] [right.inRole .right]
      rfl rfl rfl rfl rfl (by simp)))
  · exact .pure (h.append whole)

end Parser
end FactorySync
