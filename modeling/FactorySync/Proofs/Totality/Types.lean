import FactorySync.Parse.Types
import FactorySync.Proofs.Totality.Signatures

/-!
# Types are read to the end
-/

namespace FactorySync
namespace Parser

open Parse

variable {limit rank : Nat} {s : State}

/-! ## Members of interfaces and type literals -/

theorem isIndexSignature_peeks : isIndexSignature.Peeks rank := by
  refine .lookAhead (.bind .advance fun _ => .bind (.view _) fun k => ?_)
  split
  · exact .bind .advance fun _ => .bind (.view _) fun next => .pure _
  · exact .pure _

theorem indexSignature_total (start : Nat) (modifiers : Modifiers) :
    (indexSignature start modifiers).Total (rank + 1) := by
  refine .bind (.require _) fun _ => .bind (.commaList parameter_total) fun parameters => ?_
  refine .bind (.require _) fun _ => .bind declaredType_total fun type => ?_
  exact .bind .node fun n => .pure _

theorem bareSignature_total (k : Kind) (start : Nat) : (bareSignature k start).Total rank :=
  .bind signature_total fun _ => .bind .node fun _ => .pure _

theorem namedMember_total (start : Nat) (modifiers : Modifiers) :
    (namedMember start modifiers).Total rank := by
  refine .bind (.view _) fun first => .bind (Peeks.nextIs _).total fun isAccessor => ?_
  refine .bind (.skipIf _) fun _ => .bind propertyName_total fun name => ?_
  refine .bind (.keepIf _ _) fun question => .bind (.view _) fun next => ?_
  split
  · exact .bind signature_total fun parts => .bind .node fun n => .pure _
  · exact .bind declaredType_total fun type => .bind .node fun n => .pure _

theorem typeMember_total : typeMember.Total (rank + 1) := by
  refine .bind (.view _) fun start => .bind (.view _) fun first => ?_
  split
  · exact bareSignature_total _ _
  refine .bind (Peeks.nextIs _).total fun isConstructor => ?_
  split
  · exact .bind .advance fun _ => bareSignature_total _ _
  refine .bind modifiers_total fun modifiers => .bind (.view _) fun k => ?_
  refine .bind isIndexSignature_peeks.total fun isIndex => ?_
  split
  · exact indexSignature_total _ _
  · exact namedMember_total _ _

/-- A member that consumes nothing leaves the token it was asked for at, which is passed over. -/
theorem typeMembers_answers : typeMembers.Total 1 ∧ typeMembers.Consumes (· = .openBrace) := by
  refine Consumes.orTotal (.bind (.manyWhile ?_) fun members => ?_) (by decide) nofun
  · intro limit s h
    rw [answers_kind]
    refine .pure fun more => ?_
    rw [answers_here]
    refine .bind (typeMember_total h) fun member t l _ => ?_
    have h' : Within limit 1 t := h.leads l
    rw [answers_kind]
    split
    · next separator =>
      refine h'.go (h'.advance fun atEnd => ?_) fun _ u _ _ moved =>
        .pure (Nat.lt_of_le_of_lt l.run.here_le moved)
      simp [atEnd] at separator
    rw [answers_here]
    split
    · next stays =>
      have goesOn : t.token.kind ≠ .endOfFile := by
        obtain ⟨text, sound⟩ := h.ready.valid
        rcases l.run.kind_of_here_eq sound stays with same | reread
        · rw [same]
          rintro atEnd
          simp [atEnd, Kind.endsBlock] at more
        · exact Kind.ne_endOfFile reread rfl
      refine .bind .note fun _ u l' hu => ?_
      subst hu
      refine (h'.leads l').go ((h'.leads l').advance ?_) fun _ v _ _ moved => .pure ?_
      · rwa [Reading.note_token]
      · rwa [Reading.note_here, stays] at moved
    · next consumed => exact .pure (Nat.lt_of_le_of_ne l.run.here_le (Ne.symm consumed))
  · exact .bind (.require _) fun _ => .pure _

/-! ## Function types -/

theorem skipParameterStart_total : skipParameterStart.Total (rank + 1) := by
  refine .bind modifiers_total fun _ => .bind (.view _) fun first => ?_
  split
  · exact .bind .advance fun _ => .pure _
  split
  · exact .bind (.view _) fun before => .bind .need fun _ => .bind (.view _) fun after => .pure _
  · exact .pure _

theorem opensFunctionType_peeks : opensFunctionType.Peeks (rank + 1) := by
  refine .lookAhead (.bind .advance fun _ => .bind (.view _) fun first => ?_)
  split
  · exact .pure _
  refine .bind skipParameterStart_total fun found => ?_
  split
  · refine .bind (.view _) fun next => ?_
    split
    all_goals first | exact .pure _ | exact .bind .advance fun _ => .bind (.view _) fun k => .pure _
  · exact .pure _

/-- What a function type may begin with. -/
def functionTypeStarts : List Kind := [.abstractKeyword, .newKeyword, .lessThan, .openParen]

theorem beginsFunctionType_answers (h : Within limit (rank + 1) s) :
    beginsFunctionType.Answers limit s fun begins t =>
      t = s ∧ (begins = true → s.token.kind ∈ functionTypeStarts) := by
  rw [beginsFunctionType, answers_kind]
  split
  · next hk => exact .pure ⟨rfl, fun _ => by simp [hk, functionTypeStarts]⟩
  · next hk => exact .pure ⟨rfl, fun _ => by simp [hk, functionTypeStarts]⟩
  · next hk =>
    exact (Peeks.nextIs _ h).mono fun _ _ _ ht => ⟨ht, fun _ => by simp [hk, functionTypeStarts]⟩
  · next hk =>
    exact (opensFunctionType_peeks h).mono fun _ _ _ ht =>
      ⟨ht, fun _ => by simp [hk, functionTypeStarts]⟩
  · exact .pure ⟨rfl, nofun⟩

/-- A token has been consumed, or one of these kinds is here. -/
def Ahead (limit : Nat) (kinds : List Kind) (s : State) : Prop :=
  Within limit 8 s ∨ Within limit 0 s ∧ s.token.kind ∈ kinds

/-- Behind a parser that consumes a token of the first kind if that is here. -/
theorem Ahead.answers {α : Type} {p : Parser α} {k : Kind} {kinds : List Kind}
    (ahead : Ahead limit (k :: kinds) s)
    (hp : ∀ {s : State}, Within limit 0 s → p.Answers limit s fun _ t =>
      s.here < t.here ∨ t = s ∧ s.token.kind ≠ k) :
    p.Answers limit s fun _ t => Ahead limit kinds t := by
  rcases ahead with h | ⟨h, isAhead⟩
  · exact (hp (h.lower (Nat.zero_le _))).mono fun _ _ l _ => .inl (h.leads l)
  · refine (hp h).mono fun _ t l ht => ?_
    rcases ht with moved | ⟨rfl, other⟩
    · exact .inl (h.moved l moved)
    · exact .inr ⟨h, (List.mem_cons.1 isAhead).resolve_left other⟩

theorem accept_answers {k : Kind} (more : k ≠ .endOfFile) (h : Within limit 0 s) :
    (accept k).Answers limit s fun _ t => s.here < t.here ∨ t = s ∧ s.token.kind ≠ k := by
  refine (h.accept more).mono fun found t _ hfound => ?_
  cases found with
  | true => exact .inl hfound
  | false => exact .inr ⟨hfound.2, hfound.1⟩

theorem typeParameters_answers (h : Within limit 0 s) :
    typeParameters.Answers limit s fun _ t =>
      s.here < t.here ∨ t = s ∧ s.token.kind ≠ .lessThan := by
  refine .bind (h.accept nofun) fun found t l hfound => ?_
  cases found with
  | true =>
    refine .mono (Total.bind (.commaList typeParameter_total) (fun _ => ?_) (h.moved l hfound))
      fun _ _ l' _ => .inl (Nat.lt_of_lt_of_le hfound l'.run.here_le)
    exact .bind (.require _) fun _ => .pure _
  | false => exact .pure (.inr ⟨hfound.2, hfound.1⟩)

/-- One of the optional parts at the front of a function type is there, so a token is consumed
before the type behind the arrow. -/
theorem functionType_answers (h : Within limit 0 s) (begins : s.token.kind ∈ functionTypeStarts) :
    functionType.Answers limit s fun _ _ => True := by
  have ahead : Ahead limit functionTypeStarts s := .inr ⟨h, begins⟩
  rw [functionType, answers_here]
  refine .bind (ahead.answers (accept_answers nofun)) fun isAbstract t _ ahead => ?_
  refine .bind (ahead.answers (accept_answers nofun)) fun isConstructor u _ ahead => ?_
  refine .bind (ahead.answers typeParameters_answers) fun typeParameters v _ ahead => ?_
  have parameters : parameterList.Answers limit v fun _ w => Within limit 8 w := by
    rcases ahead with h | ⟨h, opens⟩
    · exact (parameterList_total h).mono fun _ _ l _ => h.leads l
    · refine (parameterList_answers h).mono fun _ _ l moved => ?_
      exact h.moved l (moved (by simpa using opens))
  refine .bind parameters fun parameters w _ h => ?_
  refine Total.bind (.require _) (fun _ => .bind typeOrPredicate_total fun result => ?_) h
  exact .bind .node fun n => .pure _

/-! ## Types that begin with their own token -/

theorem typeArgumentsOnLine_total : typeArgumentsOnLine.Total rank := by
  refine .bind (.view _) fun afterLineBreak => ?_
  split
  · exact .pure _
  · exact optionalTypeArguments_total

theorem namedType_total (k : Kind) (role : Role) (start : Nat) :
    (namedType k role start).Total rank := by
  refine .bind entityName_total fun name => .bind typeArgumentsOnLine_total fun arguments => ?_
  exact .bind .node fun n => .pure _

theorem isMappedType_peeks : isMappedType.Peeks rank := by
  refine .lookAhead (.bind .advance fun _ => .bind (.view _) fun first => ?_)
  split
  · exact .bind .advance fun _ => .bind (.view _) fun next => .pure _
  have inBrackets : ∀ opened : Bool, Total rank (do
      if opened then
        if (← kind).isPropertyWord then
          advance
          return (← kind) == Kind.inKeyword
      return false) := by
    intro opened
    split
    · refine .bind (.view _) fun k => ?_
      split
      · exact .bind .advance fun _ => .bind (.view _) fun next => .pure _
      · exact .pure _
    · exact .pure _
  split
  · exact .bind .advance fun _ => .bind (.accept _) inBrackets
  · exact .bind (.accept _) inBrackets

theorem signed_total (role : MarkRole) (word : Kind) : (signed role word).Total rank := by
  refine .bind (.view _) fun first => ?_
  split
  · exact .bind (.keep _) fun mark => .pure _
  split
  · exact .bind (.keep _) fun sign => .bind (.require _) fun _ => .pure _
  · exact .pure _

theorem mappedType_consumes : mappedType.Consumes (· = .openBrace) := by
  refine .view fun start => .require (.bind (signed_total _ _) fun readonly => ?_) nofun
  refine .bind (.require _) fun _ => .bind (.view _) fun parameterStart => ?_
  refine .bind identifier_total fun name => .bind (.require _) fun _ => ?_
  refine .bind .need fun constraint => .bind .node fun parameter => ?_
  refine .bind (afterToken_total .need nofun) fun nameType => .bind (.require _) fun _ => ?_
  refine .bind (signed_total _ _) fun question => ?_
  refine .bind (afterToken_total .need nofun) fun type => ?_
  refine .bind (.view _) fun next => .bind (.skipIf _) fun _ => .bind (.require _) fun _ => ?_
  exact .bind .node fun n => .pure _

theorem isNamedTupleMember_peeks : isNamedTupleMember.Peeks rank := by
  refine .lookAhead (.bind (.accept _) fun _ => .bind (.view _) fun k => ?_)
  split
  · refine .bind .advance fun _ => .bind (.accept _) fun _ => ?_
    exact .bind (.view _) fun next => .pure _
  · exact .pure _

theorem tupleMember_total : tupleMember.Total (rank + 2) := by
  refine .bind (.view _) fun start => .bind isNamedTupleMember_peeks.total fun isNamed => ?_
  split
  · refine .bind (.keepIf _ _) fun rest => .bind propertyWord_total fun name => ?_
    refine .bind (.keepIf _ _) fun question => .bind (.require _) fun _ => ?_
    exact .bind .need fun type => .bind .node fun n => .pure _
  refine .bind (.accept _) fun isRest => ?_
  split
  · exact .bind .need fun type => .node
  refine .bind .need fun type => .bind (.accept _) fun isOptional => ?_
  split
  · exact .node
  · exact .pure _

theorem tupleType_consumes : tupleType.Consumes (· = .openBracket) := by
  refine .view fun start => .require (.bind (.commaList tupleMember_total) fun elements => ?_) nofun
  exact .bind (.require _) fun _ => .node

theorem literalType_total {start : Nat} {literal : Parser Node} (h : literal.Total rank) :
    (literalType start literal).Total rank := .bind h fun _ => .node

theorem negativeLiteral_total (start : Nat) : (negativeLiteral start).Total rank :=
  .bind .advance fun _ => .bind sourceLiteral_total fun _ => .bind .node fun _ => .pure _

theorem primaryType_total : primaryType.Total rank := by
  intro limit s h
  rw [primaryType, answers_here, answers_kind]
  split
  · exact Total.tokenNode h
  split
  · exact Total.bind .advance (fun _ => namedType_total _ _ _) h
  · next brace =>
    refine isMappedType_peeks.go h fun isMapped => ?_
    split
    · exact (mappedType_consumes.answers h brace).forget
    · exact .bind (typeMembers_answers.2.answers h brace) fun members _ l _ =>
        Total.node (h.leads l)
  · next bracket => exact (tupleType_consumes.answers h bracket).forget
  · next paren =>
    refine (h.after (h.advance (by simp [paren])) fun _ => ?_).forget
    exact .bind .need fun type => .bind (.require _) fun _ => .node
  · exact literalType_total stringLiteral_total h
  · exact literalType_total sourceLiteral_total h
  · exact literalType_total sourceLiteral_total h
  · exact literalType_total plainTemplate_total h
  · exact literalType_total .tokenNode h
  · exact literalType_total .tokenNode h
  · refine (Peeks.nextIs _).go h fun isNumber => ?_
    split
    · exact literalType_total (negativeLiteral_total _) h
    split
    · exact namedType_total _ _ _ h
    · exact Total.bind .note (fun _ => .missing) h

/-! ## Operators -/

theorem postfixType_total : postfixType.Total rank := by
  refine .bind (.view _) fun start => .bind primaryType_total fun first => .loop (fun type => ?_) _
  intro limit s h
  rw [answers_afterLineBreak, answers_kind]
  split
  · next bracket =>
    have opened : s.token.kind = .openBracket := by simpa using (Bool.and_eq_true_iff.1 bracket).2
    refine .mono (h.after (h.advance (by simp [opened])) fun _ => ?_) fun _ _ _ moved _ => moved
    refine .whenAccepted (.bind .node fun n => .pure _) (.bind .need fun index => ?_) nofun
    exact .bind (.require _) fun _ => .bind .node fun n => .pure _
  · exact .pure nofun

theorem inferConstraint_total : inferConstraint.Total rank := by
  intro limit s h
  rw [inferConstraint, answers_kind]
  split
  · next isExtends =>
    rw [answers_view]
    refine .bind (.attempt (.mono (h.after (h.advance (by simp [isExtends])) fun _ => ?_)
      fun _ _ _ moved _ => moved)) fun found t _ _ => .pure trivial
    refine .bind .need fun type => .bind (.view _) fun next => ?_
    split
    · exact .pure _
    · exact .pure _
  · exact .pure trivial

/-- An operator is consumed before its operand is asked for. -/
theorem typeOperand_total : typeOperand.Total rank := by
  have operator : ∀ start (detail : Kind), Consumes (· ≠ .endOfFile) (do
      advance
      let type ← need .typeOperand
      return { ← node .typeOperator start [type.inRole .typeNode] with
        detail := .operator detail }) :=
    fun start detail =>
      .advance (.bind .need fun _ => .bind .node fun _ => .pure _) fun _ more => more
  intro limit s h
  rw [typeOperand, answers_here, answers_kind]
  split
  · next hk => exact ((operator _ _).answers h (by simp [hk])).forget
  · next hk => exact ((operator _ _).answers h (by simp [hk])).forget
  · next hk => exact ((operator _ _).answers h (by simp [hk])).forget
  · refine Total.bind .advance (fun _ => .bind (.view _) fun parameterStart => ?_) h
    refine .bind identifier_total fun name => .bind inferConstraint_total fun constraint => ?_
    exact .bind .node fun parameter => .node
  · exact postfixType_total h

theorem joinedTypes_total {operator joined : Kind} {member : Parser Node}
    (hmember : member.Total (rank + 1)) (more : operator ≠ .endOfFile) :
    (joinedTypes operator joined member).Total (rank + 1) := by
  have anyMember : (do if ← beginsFunctionType then functionType else member).Total (rank + 1) := by
    intro limit s h
    refine .bind (beginsFunctionType_answers h) fun begins t _ ht => ?_
    obtain ⟨rfl, isAhead⟩ := ht
    split
    · next isFunction => exact functionType_answers (h.lower (Nat.zero_le _)) (isAhead isFunction)
    · exact hmember h
  refine .bind (.view _) fun start => .bind (.accept _) fun _ => ?_
  refine .bind anyMember fun first => .bind (.view _) fun k => ?_
  split
  · refine .bind (.manyWhile ?_) fun others => .node
    intro limit s h
    refine (h.accept more).mono fun found t l hfound isFound => ?_
    rw [if_pos isFound] at hfound
    exact (anyMember (h.leads l)).mono fun _ _ l' _ => Nat.lt_of_lt_of_le hfound l'.run.here_le
  · exact .pure _

theorem intersectionType_total : intersectionType.Total (rank + 1) :=
  joinedTypes_total .need nofun

theorem unionType_total : unionType.Total (rank + 1) :=
  joinedTypes_total intersectionType_total nofun

theorem acceptExtends_answers (h : Within limit rank s) :
    acceptExtends.Answers limit s fun found t => found = true → s.here < t.here := by
  rw [acceptExtends, answers_view, answers_afterLineBreak]
  dsimp only
  split
  · exact .mono (h.accept nofun) fun found t _ hfound isFound => by simpa [isFound] using hfound
  · exact .pure nofun

theorem wholeType_total : wholeType.Total (rank + 1) := by
  intro limit s h
  refine .bind (beginsFunctionType_answers h) fun begins t _ ht => ?_
  obtain ⟨rfl, isAhead⟩ := ht
  split
  · next isFunction => exact functionType_answers (h.lower (Nat.zero_le _)) (isAhead isFunction)
  rw [answers_here]
  refine h.run unionType_total fun type u h' _ => ?_
  refine .bind (acceptExtends_answers h') fun isConditional v l moved => ?_
  split
  · next found =>
    refine Total.bind .need (fun bound => .bind (.require _) fun _ => ?_) (h'.moved l (moved found))
    refine .bind .need fun whenTrue => .bind (.require _) fun _ => ?_
    exact .bind .need fun whenFalse => .node
  · exact .pure trivial

theorem typeAt_total (inExtends : Bool) : (typeAt inExtends).Total (rank + 1) :=
  .withExtends inExtends (.deeper wholeType_total)

end Parser
end FactorySync
