import FactorySync.Parse.Expressions
import FactorySync.Proofs.Totality.Types

/-!
# Expressions are read to the end
-/

namespace FactorySync
namespace Parser

open Parse

variable {limit rank : Nat} {s : State}

/-! ## Functions -/

theorem arrowBody_total : arrowBody.Total (rank + 4) := by
  intro limit s h
  rw [arrowBody, answers_kind]
  split
  · next brace => exact (block_answers.2.answers h brace).forget
  · exact Total.need h

/-- The parameter or the `async` before it is consumed before the body is asked for. -/
theorem simpleArrow_answers {start : Nat} {isAsync : Bool} (h : Within limit rank s)
    (begins : if isAsync then s.token.kind = .asyncKeyword else s.token.kind.isName = true) :
    (simpleArrow start isAsync).Answers limit s fun _ _ => True := by
  have body : ∀ f : Node → Parser Node, (∀ n, (f n).Total 8) →
      (do require .equalsGreaterThan; f (← arrowBody)).Total 8 :=
    fun f hf => .bind (.require _) fun _ => .bind arrowBody_total hf
  cases isAsync with
  | true =>
    refine (h.after (h.advance (by simp [show _ = _ from begins])) fun _ => ?_).forget
    exact .bind identifier_total fun name => body _ fun n => .bind .node fun n => .pure _
  | false =>
    rw [if_neg Bool.false_ne_true] at begins
    have moved : identifier.Answers limit s fun _ t => s.here < t.here := by
      rw [identifier, identifierIf, answers_kind, if_pos begins]
      exact h.leaf (Kind.ne_endOfFile begins rfl)
    exact (h.after moved fun name => body _ fun n => .bind .node fun n => .pure _).forget

theorem parenthesizedArrow_total (start : Nat) (isAsync : Bool) :
    (parenthesizedArrow start isAsync).Total rank := by
  refine .bind (.view _) fun before => .bind (.skipIf _) fun _ => ?_
  refine .bind typeParameters_total fun typeParameters => ?_
  intro limit s h
  rw [answers_kind]
  split
  · next opens =>
    refine .bind (parameterList_answers h) fun parameters t l moved => ?_
    refine Total.bind returnType_total (fun result => ?_) (h.moved l (moved opens))
    refine .bind (.view _) fun k => .bind (.view _) fun afterLineBreak => ?_
    refine .bind (.view _) fun now => ?_
    dsimp only
    split
    · exact .bind .advance fun _ => .bind arrowBody_total fun body => .bind .node fun n => .pure _
    · exact .pure _
  · exact .pure trivial

theorem beginsSimpleArrow_answers {isAsync : Bool} (h : Within limit rank s) :
    (beginsSimpleArrow isAsync).Answers limit s fun begins t =>
      t = s ∧ (begins = true → isAsync = false → s.token.kind.isName = true) := by
  have trial : Parser.Answers (do
        skipIf isAsync
        if (← kind).isName then
          advance
          return (← kind) == .equalsGreaterThan && !(← afterLineBreak)
        else return false) limit s fun begins _ =>
      begins = true → isAsync = false → s.token.kind.isName = true := by
    have skipped : (skipIf isAsync).Answers limit s fun _ t => isAsync = false → t = s := by
      cases isAsync with
      | true => exact (Total.advance h).mono fun _ _ _ _ => nofun
      | false => exact .pure fun _ => rfl
    refine .bind skipped fun _ t l stays => ?_
    rw [answers_kind]
    split
    · next isName =>
      refine .mono (Total.bind .advance (fun _ => .bind (.view _) fun next => ?_) (h.leads l))
        fun _ _ _ _ _ noAsync => stays noAsync ▸ isName
      exact .bind (.view _) fun afterLineBreak => .pure _
    · exact .pure nofun
  exact trial.lookAhead.mono fun _ _ _ ht => ⟨ht.1, ht.2.choose_spec⟩

theorem beginsAsyncArrow_answers (h : Within limit rank s) :
    beginsAsyncArrow.Answers limit s fun begins t =>
      t = s ∧ (begins = true → s.token.kind = .asyncKeyword) := by
  rw [beginsAsyncArrow, answers_kind]
  split
  · next hk => exact (Peeks.nextOnLineIs _ h).mono fun _ _ _ ht => ⟨ht, fun _ => hk⟩
  · exact .pure ⟨rfl, nofun⟩

theorem mayOpenHead_peeks (isAsync : Bool) : (mayOpenHead isAsync).Peeks rank := by
  unfold mayOpenHead
  split
  · exact .nextOnLineIs _
  · exact .bind (.view _) fun k => .pure _

theorem arrowFunction_total : arrowFunction.Total rank := by
  intro limit s h
  rw [arrowFunction, answers_here]
  refine .bind (beginsAsyncArrow_answers h) fun isAsync t _ ht => ?_
  obtain ⟨rfl, isWord⟩ := ht
  refine .bind (beginsSimpleArrow_answers h) fun begins t _ ht => ?_
  obtain ⟨rfl, isName⟩ := ht
  split
  · next isSimple =>
    refine .bind (simpleArrow_answers h ?_) fun function t _ _ => .pure trivial
    cases isAsync with
    | true => exact isWord rfl
    | false => exact isName isSimple rfl
  refine (mayOpenHead_peeks _).go h fun mayOpen => ?_
  split
  · exact (parenthesizedArrow_total _ _).attempt h
  · exact .pure trivial

theorem functionExpression_answers (isAsync : Bool) :
    (functionExpression isAsync).Total 5 ∧
      (functionExpression isAsync).Consumes (· = .functionKeyword) := by
  refine Consumes.orTotalFrom (fun start => ?_) (by decide) nofun
  refine .bind (.keepIf _ _) fun asterisk => .bind (optionalName_total _) fun name => ?_
  refine .bind signature_total fun parts => .bind block_total fun body => ?_
  exact .bind .node fun n => .pure _

/-! ## Object literals -/

theorem requiredBody_total : requiredBody.Total rank := by
  intro limit s h
  rw [requiredBody, answers_kind]
  split
  · next brace => exact .bind (block_answers.2.answers h brace) fun _ _ _ _ => .pure trivial
  · exact .bind .note fun _ _ _ _ => .pure trivial

theorem accessor_total (start : Nat) (word : Kind) (name : Node) :
    (accessor start word name).Total rank := by
  refine .bind parameterList_total fun parameters => .bind returnType_total fun result => ?_
  exact .bind requiredBody_total fun body => .node

theorem method_total (start : Nat) (modifiers : Modifiers) (name : Node)
    (asterisk question : List Mark) :
    (method start modifiers name asterisk question).Total rank := by
  refine .bind signature_total fun parts => .bind requiredBody_total fun body => ?_
  exact .bind .node fun n => .pure _

theorem skipDefault_total : skipDefault.Total rank :=
  .whenAccepted (.bind .need fun _ => .pure _) (.pure _) nofun

theorem property_total (start : Nat) (name : Node) : (property start name).Total rank := by
  refine .whenAccepted (.bind .need fun value => .node) ?_ nofun
  split
  · exact .bind skipDefault_total fun _ => .node
  · exact .bind .note fun _ => .bind .missing fun value => .node

theorem accessorWord_total (isAllowed : Bool) : (accessorWord isAllowed).Total rank := by
  refine .bind (.view _) fun word => .bind (Peeks.nextIs _).total fun beforeName => ?_
  split
  · exact .bind .advance fun _ => .pure _
  · exact .pure _

theorem asyncWord_total : asyncWord.Total rank := by
  refine .bind (.view _) fun word => .bind (Peeks.nextOnLineIs _).total fun beforeMethod => ?_
  split
  · exact .bind .advance fun _ => .pure _
  · exact .pure _

theorem objectMember_total : objectMember.Total rank := by
  refine .bind (.view _) fun start => .whenAccepted (.bind .need fun value => .node) ?_ nofun
  refine .bind asyncWord_total fun isAsync => .bind (.keepIf _ _) fun asterisk => ?_
  refine .bind (accessorWord_total _) fun word => .bind propertyName_total fun name => ?_
  cases word with
  | some word => exact accessor_total _ _ _
  | none =>
    refine .bind (.keepIf _ _) fun question => .bind (.view _) fun next => ?_
    split
    · exact method_total _ _ _ _ _
    · exact property_total _ _

theorem objectMembers_total : objectMembers.Total rank := by
  refine .loop (fun members => .bind (.view _) fun k => ?_) _
  split
  · exact .done _
  · exact .bind objectMember_total fun member => .bind (.view _) fun t => .comma _ _

theorem objectLiteral_consumes : objectLiteral.Consumes (· = .openBrace) := by
  refine .view fun start => .view fun text => ?_
  refine .require (.bind objectMembers_total fun members => ?_) nofun
  exact .bind (.require _) fun _ => .bind .node fun literal => .pure _

/-! ## Commas -/

theorem expression_total : expression.Total (rank + 4) := by
  refine .bind (.view _) fun start => .bind .need fun first => .loop (fun left => ?_) _
  intro limit s h
  rw [answers_kind]
  split
  · next comma =>
    refine .mono (h.after (h.leaf (by simp [comma])) fun mark => ?_) fun _ _ _ moved _ => moved
    exact .bind .need fun right => .bind .node fun joined => .pure _
  · exact .pure nofun

/-! ## What begins with its own token -/

theorem templateSpans_total : templateSpans.Total (rank + 4) := by
  refine .loop (fun spans => .bind (.view _) fun start => .bind expression_total fun value => ?_) _
  intro limit s h
  rw [answers_kind]
  split
  · next brace =>
    refine .bind (h.rescan _) fun _ t l rescanned => ?_
    have more := rescanned.2 (by simp [brace])
    rw [answers_token]
    refine (h.leads l).move ((h.leads l).advance more) fun _ u h' moved => ?_
    refine h'.run .node fun span v _ le => ?_
    have moved : s.here < v.here := rescanned.1 ▸ Nat.lt_of_lt_of_le moved le
    dsimp only
    split
    · exact .pure fun _ => moved
    · exact .pure fun isMore => by cases isMore
  · exact .bind .note fun _ _ _ _ => .pure fun isMore => by cases isMore

theorem templateExpression_consumes : templateExpression.Consumes (· = .templateHead) := by
  refine .view fun t => .advance (.bind templateSpans_total fun spans => ?_) nofun
  exact .bind .node fun n => .pure _

theorem spreadable_total : spreadable.Total (rank + 4) := by
  refine .bind (.view _) fun start => .whenAccepted (.bind .need fun value => .node) ?_ nofun
  exact .need

theorem arrayLiteral_consumes : arrayLiteral.Consumes (· = .openBracket) := by
  refine .view fun start => .require (.bind (elementsWithHoles_total spreadable_total) ?_) nofun
  exact fun elements => .bind (.require _) fun _ => .node

theorem primary_total : primary.Total rank := by
  intro limit s h
  rw [primary, answers_here, answers_kind]
  split
  · exact sourceLiteral_total h
  · exact sourceLiteral_total h
  · exact stringLiteral_total h
  · exact plainTemplate_total h
  · next hk => exact (templateExpression_consumes.answers h hk).forget
  · exact Total.bind (.rescan _) (fun _ => sourceLiteral_total) h
  · exact Total.bind (.rescan _) (fun _ => sourceLiteral_total) h
  · exact Total.tokenNode h
  · exact Total.tokenNode h
  · exact Total.tokenNode h
  · exact Total.tokenNode h
  · exact Total.tokenNode h
  · exact Total.tokenNode h
  · next paren =>
    refine (h.after (h.advance (by simp [paren])) fun _ => ?_).forget
    exact .bind expression_total fun value => .bind (.require _) fun _ => .node
  · next bracket => exact (arrayLiteral_consumes.answers h bracket).forget
  · next brace => exact (objectLiteral_consumes.answers h brace).forget
  · next hk => exact ((functionExpression_answers _).2.answers h hk).forget
  · refine (Peeks.nextOnLineIs _).go h fun isFunction => ?_
    split
    · next isAsync =>
      have more : s.token.kind ≠ .endOfFile := fun atEnd => by simp [atEnd] at isAsync
      exact (h.after (h.advance more) fun _ => (functionExpression_answers true).1.mono
        (by decide)).forget
    split
    · exact identifierHere_total h
    · exact Total.bind .note (fun _ => .missing) h

/-! ## Chains of accesses and calls -/

theorem argumentList_answers : argumentList.Total 4 ∧ argumentList.Consumes (· = .openParen) := by
  refine Consumes.orTotal (.bind (.commaList spreadable_total) fun arguments => ?_)
    (by decide) nofun
  exact .bind (.require _) fun _ => .pure _

theorem propertyLink_total (target : Node) (questionDot : List Mark) :
    (propertyLink target questionDot).Total rank :=
  .bind propertyWord_total fun _ => .bind .node fun _ => .pure _

theorem elementLink_answers (target : Node) (questionDot : List Mark) :
    (elementLink target questionDot).Total 4 ∧
      (elementLink target questionDot).Consumes (· = .openBracket) := by
  refine Consumes.orTotal (.bind expression_total fun index => ?_) (by decide) nofun
  exact .bind (.require _) fun _ => .bind .node fun n => .pure _

theorem callLink_consumes (target : Node) (questionDot : List Mark)
    (typed : List Role × List Node) :
    (callLink target questionDot typed).Consumes (· = .openParen) := by
  intro limit s h opens
  refine h.after (argumentList_answers.2.answers h opens) fun arguments => ?_
  exact .bind .node fun n => .pure _

theorem soundTypeArguments_answers {follow : Kind → Bool} (h : Within limit rank s)
    (opens : s.token.kind = .lessThan) :
    (soundTypeArguments follow).Answers limit s fun found t =>
      found.isSome = true → follow t.token.kind = true := by
  refine .attempt ?_
  rw [answers_noteCount]
  refine .bind (typeArguments_consumes.answers h opens) fun arguments t _ _ => ?_
  rw [answers_noteCount, answers_kind]
  split
  · next isSound => exact .pure fun _ => (Bool.and_eq_true_iff.1 isSound).2
  · exact .pure nofun

theorem optionalLink_consumes (target : Node) (allowCalls : Bool) :
    (optionalLink target allowCalls).Consumes (· = .questionDot) := by
  refine .keep (fun mark => .bind (.view _) fun next => ?_) nofun
  split
  · refine .bind optionalTypeArguments_total fun typed => ?_
    refine .bind (argumentList_answers.1.mono (by decide)) fun arguments => ?_
    exact .bind .node fun n => .pure _
  split
  · exact (elementLink_answers _ _).1.mono (by decide)
  · exact propertyLink_total _ _

theorem chain_total (allowCalls : Bool) (first : Node) : (chain allowCalls first).Total rank := by
  refine .loop (fun target => ?_) _
  intro limit s h
  rw [answers_kind]
  split
  · next dot =>
    refine .mono (h.after (h.advance (by simp [dot])) fun _ => ?_) fun _ _ _ moved _ => moved
    exact .bind (propertyLink_total _ _) fun target => .pure _
  · next dot =>
    refine .mono (h.after ((optionalLink_consumes _ _).answers h dot) fun _ => .pure _)
      fun _ _ _ moved _ => moved
  · next bracket =>
    refine .mono (h.after ((elementLink_answers _ _).2.answers h bracket) fun _ => .pure _)
      fun _ _ _ moved _ => moved
  · next mark =>
    rw [answers_afterLineBreak]
    split
    · exact .pure nofun
    refine .mono (h.after (h.advance (by simp [mark])) fun _ => ?_) fun _ _ _ moved _ => moved
    exact .bind .node fun target => .pure _
  · next paren =>
    split
    · refine .mono (h.after ((callLink_consumes _ _ _).answers h paren) fun _ => .pure _)
        fun _ _ _ moved _ => moved
    · exact .pure nofun
  · next less =>
    split
    · refine h.go (soundTypeArguments_answers h less) fun found t h' le follows => ?_
      cases found with
      | none => exact .pure nofun
      | some typed =>
        have paren : t.token.kind = .openParen := by simpa using follows rfl
        refine .mono (h'.after ((callLink_consumes _ _ _).answers h' paren) fun _ => .pure _)
          fun _ _ _ moved _ => Nat.lt_of_le_of_lt le moved
    · exact .pure nofun
  · exact .pure nofun

theorem chainHead_total : chainHead.Total (rank + 1) := by
  intro limit s h
  rw [chainHead, answers_kind]
  split
  · next isNew => exact h.need (by simp) fun _ => isNew
  · exact primary_total h

theorem constructionTypes_total : constructionTypes.Total rank := by
  intro limit s h
  rw [constructionTypes, answers_kind]
  split
  · next less => exact .bind (soundTypeArguments_answers h less) fun _ _ _ _ => .pure trivial
  · exact .pure trivial

theorem optionalArguments_total : optionalArguments.Total rank := by
  intro limit s h
  rw [optionalArguments, answers_kind]
  split
  · next paren => exact .bind (argumentList_answers.2.answers h paren) fun _ _ _ _ => .pure trivial
  · exact .pure trivial

theorem construction_consumes : construction.Consumes (· = .newKeyword) := by
  intro limit s h isNew
  rw [construction, answers_here]
  refine h.after (h.leaf (by simp [isNew])) fun word => ?_
  refine .whenAccepted (.bind propertyWord_total fun name => .node) ?_ nofun
  refine .bind chainHead_total fun head => .bind (chain_total _ _) fun callee => ?_
  refine .bind constructionTypes_total fun types => ?_
  refine .bind optionalArguments_total fun arguments => ?_
  exact .bind .node fun n => .pure _

theorem leftHandSide_total : leftHandSide.Total (rank + 1) :=
  .bind chainHead_total fun _ => chain_total _ _

/-! ## Operators -/

theorem prefixed_consumes (start : Nat) : (prefixed start).Consumes (· ≠ .endOfFile) := by
  refine .view fun operator => .advance (.bind .need fun operand => ?_) fun _ more => more
  exact .bind .node fun n => .pure _

theorem typeAssertion_consumes (start : Nat) : (typeAssertion start).Consumes (· ≠ .endOfFile) := by
  refine .advance (.bind .need fun type => .bind (.require _) fun _ => ?_) fun _ more => more
  exact .bind .need fun value => .node

theorem postfixed_total (start : Nat) : (postfixed start).Total (rank + 1) := by
  refine .bind leftHandSide_total fun operand => .bind (.view _) fun operator => ?_
  refine .bind (.view _) fun afterLineBreak => ?_
  split
  · exact .bind .advance fun _ => .bind .node fun n => .pure _
  · exact .pure _

theorem unary_total : unary.Total (rank + 1) := by
  intro limit s h
  rw [unary, answers_here, answers_kind]
  split
  case h_10 hk =>
    refine (Peeks.nextOnLineIs _).go h fun isPrefix => ?_
    split
    · exact ((prefixed_consumes _).answers h (by simp [hk])).forget
    · exact postfixed_total _ h
  case h_11 hk => exact ((typeAssertion_consumes _).answers h (by simp [hk])).forget
  case h_12 => exact postfixed_total _ h
  all_goals next hk => exact ((prefixed_consumes _).answers h (by simp [hk])).forget

/-- An operator is consumed before the operand or the type behind it is asked for. -/
theorem binary_total (least : Nat) : (binary least).Total (rank + 2) := by
  refine .bind (.view _) fun start => .bind .need fun first => .loop (fun left => ?_) _
  intro limit s h
  refine h.go (h.rescan _) fun _ t h _ ⟨stays, _⟩ => ?_
  rw [answers_kind]
  split
  · exact .pure nofun
  next strength operator =>
  have more : t.token.kind ≠ .endOfFile := fun atEnd => by simp [atEnd, Kind.strength?] at operator
  split
  · split
    · rw [answers_afterLineBreak]
      split
      · exact .pure nofun
      refine .mono (h.after (h.advance more) fun _ => ?_) fun _ _ _ moved _ => stays ▸ moved
      exact .bind .need fun type => .bind .node fun n => .pure _
    · refine .mono (h.after (h.leaf more) fun mark => ?_) fun _ _ _ moved _ => stays ▸ moved
      exact .bind .need fun right => .bind .node fun joined => .pure _
  · exact .pure nofun

theorem conditional_total : conditional.Total (rank + 3) := by
  refine .bind (.view _) fun start => .bind .need fun condition => ?_
  refine .whenAccepted (.bind .need fun whenTrue => .bind (.require _) fun _ => ?_) (.pure _) nofun
  exact .bind .need fun whenFalse => .node

theorem assignment_total : assignment.Total (rank + 3) := by
  refine .bind arrowFunction_total fun found => ?_
  cases found with
  | some function => exact .pure _
  | none =>
    refine .bind (.view _) fun start => .bind conditional_total fun left => ?_
    intro limit s h
    rw [answers_kind]
    split
    · next isAssignment =>
      refine (h.after (h.leaf (Kind.ne_endOfFile isAssignment rfl)) fun mark => ?_).forget
      exact .bind .need fun right => .bind .node fun joined => .pure _
    · exact .pure trivial

end Parser
end FactorySync
