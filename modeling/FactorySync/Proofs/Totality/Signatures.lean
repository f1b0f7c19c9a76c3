import FactorySync.Parse.Signatures
import FactorySync.Proofs.Answers

/-!
# Names, lists and signatures are read to the end

One lemma for each production of the lower half of the grammar: it does not give up where goals
below the stated rank may be asked for. What begins with a token of its own consumes that first, and
behind it any goal may be asked for.
-/

namespace FactorySync
namespace Parser

open Parse

variable {limit rank : Nat} {s : State}

/-! ## Single tokens -/

theorem identifierHere_total : identifierHere.Total rank := .leaf

theorem stringLiteral_total : stringLiteral.Total rank := .leaf

theorem sourceLiteral_total : sourceLiteral.Total rank := .leaf

theorem plainTemplate_total : plainTemplate.Total rank := .leaf

theorem identifierIf_total (test : Kind → Bool) : (identifierIf test).Total rank := by
  refine .bind (.view _) fun k => ?_
  split
  · exact identifierHere_total
  · exact .bind .note fun _ => .missing

theorem identifier_total : identifier.Total rank := identifierIf_total _

theorem propertyWord_total : propertyWord.Total rank := identifierIf_total _

theorem moduleSpecifier_total : moduleSpecifier.Total rank := by
  refine .bind (.view _) fun k => ?_
  split
  · exact stringLiteral_total
  · exact .bind .note fun _ => .missing

/-! ## Names -/

theorem optionalName_total (role : Role) : (optionalName role).Total rank := by
  refine .bind (.view _) fun k => ?_
  split
  · exact .bind identifier_total fun name => .pure _
  · exact .pure _

theorem propertyName_total : propertyName.Total rank := by
  intro limit s h
  rw [propertyName, answers_kind]
  split
  · exact stringLiteral_total h
  · exact sourceLiteral_total h
  · exact sourceLiteral_total h
  · next bracket =>
    rw [answers_here]
    refine (h.after (h.advance (by simp [bracket])) fun _ => ?_).forget
    exact .bind .need fun expression => .bind (.require _) fun _ => .node
  · exact propertyWord_total h

theorem entityName_total : entityName.Total rank := by
  refine .bind (.view _) fun start => .bind identifier_total fun first => .loop (fun left => ?_) _
  refine .whenAccepted ?_ (.done _) nofun
  exact .bind propertyWord_total fun right => .bind .node fun left => .pure _

/-! ## Lists -/

section Lists

variable {item : Parser Node}

/-- What an optional token introduces may ask for any goal. -/
theorem afterToken_total {k : Kind} {role : Role} (part : item.Total 8)
    (more : k ≠ .endOfFile) : (afterToken k role item).Total rank :=
  .whenAccepted (.bind part fun _ => .pure _) (.pure _) more

theorem elementsWithHoles_total {k : Kind} (element : item.Total rank) :
    (elementsWithHoles k item).Total rank := by
  refine .loop (fun elements => ?_) _
  intro limit s h
  rw [answers_kind]
  split
  · exact .pure nofun
  split
  · next comma =>
    rw [answers_here]
    exact h.go (h.advance (by simp [comma])) fun _ t _ _ moved => .pure fun _ => moved
  · exact Proceeds.bind element (fun n => .comma _ _) h

end Lists

/-! ## Modifiers -/

theorem isModifierHere_peeks : isModifierHere.Peeks rank := by
  refine .bind (.view _) fun word => .lookAhead (.bind .advance fun _ => .bind (.view _) ?_)
  intro next
  split
  · exact .pure _
  · exact .pure _
  · exact .pure _
  · exact .bind (.view _) fun afterLineBreak => .pure _

theorem modifiers_total : modifiers.Total rank := by
  refine .loop (fun found => ?_) _
  intro limit s h
  rw [answers_kind]
  split
  · next isModifier =>
    refine isModifierHere_peeks.go h fun isHere => ?_
    split
    · have more := Kind.ne_endOfFile isModifier rfl
      exact h.go (h.advance more) fun _ t _ _ moved => .pure fun _ => moved
    · exact .pure nofun
  · exact .pure nofun

/-! ## Types after a colon -/

theorem declaredType_total : declaredType.Total rank := afterToken_total .need nofun

theorem predicateSubject_total : predicateSubject.Total rank := by
  refine .bind (.view _) fun k => ?_
  split
  · exact .tokenNode
  · exact identifier_total

theorem typeOrPredicate_total : typeOrPredicate.Total (rank + 2) := by
  refine .bind (.view _) fun start => .bind (.view _) fun first => ?_
  refine .bind (Peeks.nextOnLineIs _).total fun isAsserts => ?_
  split
  · refine .bind (.keep _) fun mark => .bind predicateSubject_total fun subject => ?_
    exact .bind (afterToken_total .need nofun) fun type => .bind .node fun n => .pure _
  · refine .bind (Peeks.nextOnLineIs _).total fun isPredicate => ?_
    split
    · refine .bind predicateSubject_total fun subject => .bind .advance fun _ => ?_
      exact .bind .need fun type => .node
    · exact .need

theorem returnType_total : returnType.Total rank := afterToken_total typeOrPredicate_total nofun

/-! ## Type parameters and arguments -/

theorem typeParameter_total : typeParameter.Total rank := by
  refine .bind (.view _) fun start => .bind (.loop (fun _ => ?_) _) fun _ => ?_
  · intro limit s h
    rw [answers_token]
    refine (Peeks.nextIs _).go h fun beforeName => ?_
    split
    · next variance =>
      refine h.go (h.advance fun atEnd => ?_) fun _ t _ _ moved => .pure fun _ => moved
      simp [atEnd] at variance
    · exact .pure nofun
  · refine .bind identifier_total fun name => ?_
    refine .bind (afterToken_total .need nofun) fun constraint => ?_
    exact .bind (afterToken_total .need nofun) fun fallback => .node

theorem typeParameters_total : typeParameters.Total rank := by
  refine .whenAccepted ?_ (.pure _) nofun
  exact .bind (.commaList typeParameter_total) fun _ => .bind (.require _) fun _ => .pure _

theorem typeArguments_consumes : typeArguments.Consumes (· = .lessThan) :=
  .require (.bind (.commaList .need) fun _ => .bind (.require _) fun _ => .pure _) nofun

theorem optionalTypeArguments_total : optionalTypeArguments.Total rank := by
  intro limit s h
  rw [optionalTypeArguments, answers_kind]
  split
  · next less => exact .bind (typeArguments_consumes.answers h less) fun _ _ _ _ => .pure trivial
  · exact .pure trivial

/-! ## Binding patterns -/

theorem initializer_total : initializer.Total rank := afterToken_total .need nofun

theorem boundProperty_total : boundProperty.Total rank := by
  refine .bind propertyName_total fun property => ?_
  refine .whenAccepted (.bind .need fun name => .pure _) ?_ nofun
  split
  · exact .pure _
  · exact .bind .note fun _ => .bind .missing fun name => .pure _

theorem boundRest_total : boundRest.Total (rank + 1) := .bind .need fun _ => .pure _

theorem boundNames_total (isRest : Bool) : (boundNames isRest).Total (rank + 1) := by
  cases isRest with
  | false => exact boundProperty_total
  | true => exact boundRest_total

theorem objectBindingElement_total : objectBindingElement.Total (rank + 1) := by
  refine .bind (.view _) fun start => .bind (.keepIf _ _) fun rest => ?_
  refine .bind (boundNames_total _) fun names => .bind initializer_total fun value => ?_
  exact .bind .node fun n => .pure _

theorem objectBindingPattern_consumes : objectBindingPattern.Consumes (· = .openBrace) := by
  refine .view fun start => .require (.bind (.commaList objectBindingElement_total) ?_) nofun
  exact fun elements => .bind (.require _) fun _ => .node

theorem arrayBindingElement_total : arrayBindingElement.Total (rank + 1) := by
  refine .bind (.view _) fun start => .bind (.keepIf _ _) fun rest => .bind .need fun name => ?_
  exact .bind initializer_total fun value => .bind .node fun n => .pure _

theorem arrayBindingPattern_consumes : arrayBindingPattern.Consumes (· = .openBracket) := by
  refine .view fun start => ?_
  refine .require (.bind (elementsWithHoles_total arrayBindingElement_total) ?_) nofun
  exact fun elements => .bind (.require _) fun _ => .node

theorem bindingName_total : bindingName.Total rank := by
  intro limit s h
  rw [bindingName, answers_kind]
  split
  · next brace => exact (objectBindingPattern_consumes.answers h brace).forget
  · next bracket => exact (arrayBindingPattern_consumes.answers h bracket).forget
  · exact identifier_total h

/-! ## Parameters -/

theorem parameterName_total : parameterName.Total (rank + 1) := by
  refine .bind (.view _) fun k => ?_
  split
  · exact identifierHere_total
  · exact .need

theorem parameter_total : parameter.Total (rank + 1) := by
  refine .bind (.view _) fun start => .bind modifiers_total fun modifiers => ?_
  refine .bind (.keepIf _ _) fun rest => .bind parameterName_total fun name => ?_
  refine .bind (.keepIf _ _) fun question => .bind declaredType_total fun type => ?_
  exact .bind initializer_total fun value => .bind .node fun n => .pure _

/-- What stands in the parentheses is only read where they are opened. -/
theorem parameterList_answers (h : Within limit rank s) :
    parameterList.Answers limit s fun _ t => s.token.kind = .openParen → s.here < t.here := by
  refine .bind (h.expect nofun) fun found t l hfound => ?_
  split
  · next opened =>
    have moved : s.here < t.here := hfound.2 opened
    refine .mono (Total.bind (.commaList parameter_total) (fun _ => ?_) (h.moved l moved))
      fun _ _ l' _ _ => Nat.lt_of_lt_of_le moved l'.run.here_le
    exact .bind (.require _) fun _ => .pure _
  · next missing => exact .pure fun opens => absurd (hfound.1 opens) missing

theorem parameterList_total : parameterList.Total rank := fun _ _ h =>
  (parameterList_answers h).forget

theorem signature_total : signature.Total rank := by
  refine .bind typeParameters_total fun typeParameters => ?_
  exact .bind parameterList_total fun parameters => .bind returnType_total fun result => .pure _

/-! ## Blocks -/

theorem skipToStatement_consumes : skipToStatement.Consumes (· ≠ .endOfFile) := by
  refine .advance (.loop (fun _ => ?_) _) fun _ more => more
  intro limit s h
  rw [answers_kind]
  split
  · exact .pure nofun
  split
  · exact h.run .advance fun _ _ _ _ => .pure nofun
  split
  · exact .pure nofun
  · next goesOn _ _ =>
    refine h.go (h.advance fun atEnd => ?_) fun _ t _ _ moved => .pure fun _ => moved
    exact goesOn (by rw [atEnd]; rfl)

/-- What ends statements: the end of the file at the latest, and no token that another one only
turns into when it is read again. -/
structure EndsStatements (stop : Kind → Bool) : Prop where
  atEnd : stop .endOfFile = true
  notReread : ∀ k, k.isReread = true → stop k = false

theorem endsBlock_endsStatements : EndsStatements Kind.endsBlock where
  atEnd := rfl
  notReread k h := by cases k <;> first | rfl | exact nomatch h

theorem endsClause_endsStatements : EndsStatements Kind.endsClause where
  atEnd := rfl
  notReread k h := by cases k <;> first | rfl | exact nomatch h

/-- A statement that consumes nothing leaves the token it was asked for at, and that ends no
statements, so tokens are passed over. -/
theorem statements_total {stop : Kind → Bool} (ends : EndsStatements stop) :
    (statements stop).Total (rank + 5) := by
  refine .bind (.manyWhile ?_) fun _ => .pure _
  intro limit s h
  rw [answers_kind]
  refine .pure fun more => ?_
  rw [answers_here]
  refine .bind (Total.need h) fun statement t l _ => ?_
  rw [answers_here, answers_kind]
  obtain ⟨text, sound⟩ := h.ready.valid
  by_cases stays : t.here = s.here
  · have goesOn : stop t.token.kind = false := by
      rcases l.run.kind_of_here_eq sound stays with same | reread
      · rw [same]
        simpa using more
      · exact ends.notReread _ reread
    have notAtEnd : t.token.kind ≠ .endOfFile := fun atEnd => by
      rw [atEnd, ends.atEnd] at goesOn
      exact Bool.noConfusion goesOn
    rw [if_pos (by simp [stays, goesOn])]
    exact .bind (skipToStatement_consumes.answers (h.leads l) notAtEnd) fun _ _ _ moved =>
      .pure (stays ▸ moved)
  · rw [if_neg (by simp [stays])]
    exact .pure (Nat.lt_of_le_of_ne l.run.here_le (Ne.symm stays))

theorem block_answers : block.Total 5 ∧ block.Consumes (· = .openBrace) := by
  refine Consumes.orTotalFrom (fun start => ?_) (by decide) nofun
  refine .bind (statements_total endsBlock_endsStatements) fun statements => ?_
  exact .bind (.require _) fun _ => .node

theorem block_total : block.Total (rank + 5) := block_answers.1.mono (Nat.le_add_left _ _)

end Parser
end FactorySync
