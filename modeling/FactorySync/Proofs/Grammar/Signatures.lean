import FactorySync.Parse.Signatures
import FactorySync.Proofs.Rules

/-!
# Names, lists and signatures stand for what they were read from

One lemma for each production of the lower half of the grammar: whatever it yields stands for a part
of what it consumes, and lists are in the order of the text.
-/

namespace FactorySync
namespace Parser

open Parse

/-! ## Single tokens -/

/-- A node made of the current token alone. -/
theorem leaf_reads {make : Token → Node}
    (kind : ∀ t, t.kind.isSpecial = false → (make t).kind.isSpecial = false)
    (present : ∀ t, (make t).flags.missing = false)
    (span : ∀ t, (make t).span = t.span)
    (parts : ∀ t, (make t).parts = []) :
    ReadsNode (do let t ← token; advance; return make t) := by
  intro s valid
  rw [yields_token, yields_advance]
  exact .pure ((Laid.start valid).then_advance.close
    (kind _ (Kind.isSpecial_of_isToken valid.isToken)) (present _) (span _) (by rw [parts]))

theorem keep_reads (role : MarkRole) : (keep role).ReadsMark := by
  intro s valid
  rw [keep, yields_token, yields_advance]
  exact .pure ((Laid.start valid).then_advance.close
    (Kind.isSpecial_of_isToken valid.isToken) rfl rfl rfl)

theorem keepIf_reads (role : MarkRole) (k : Kind) : (keepIf role k).ReadsMarks := by
  intro s valid
  rw [keepIf, yields_kind]
  split
  · exact (Laid.start valid).readMark (keep_reads role) fun m t h => .pure (h.loose (by simp))
  · exact .pure (Laid.start valid)

theorem identifierHere_reads : identifierHere.ReadsNode :=
  leaf_reads (fun _ _ => rfl) (fun _ => rfl) (fun _ => rfl) fun _ => rfl

theorem stringLiteral_reads : stringLiteral.ReadsNode :=
  leaf_reads (fun _ _ => rfl) (fun _ => rfl) (fun _ => rfl) fun _ => rfl

theorem sourceLiteral_reads : sourceLiteral.ReadsNode :=
  leaf_reads (fun _ h => h) (fun _ => rfl) (fun _ => rfl) fun _ => rfl

theorem plainTemplate_reads : plainTemplate.ReadsNode :=
  leaf_reads (fun _ h => h) (fun _ => rfl) (fun _ => rfl) fun _ => rfl

theorem tokenNode_reads : tokenNode.ReadsNode :=
  leaf_reads (fun _ h => h) (fun _ => rfl) (fun _ => rfl) fun _ => rfl

/-- An identifier spans exactly what is consumed. -/
theorem identifierIf_spans {test : Kind → Bool} {s : State} (valid : s.Valid) :
    (identifierIf test).Yields s fun n t =>
      n.span = ⟨s.here, t.lastEnd⟩ ∧ Laid true s.toReading [n] t.toReading := by
  rw [identifierIf, yields_kind]
  split
  · rw [identifierHere, yields_token, yields_advance]
    exact .pure ⟨rfl, (Laid.start valid).then_advance.close rfl rfl rfl (by simp)⟩
  · exact (Laid.start valid).failed

theorem identifierIf_reads (test : Kind → Bool) : (identifierIf test).ReadsNode :=
  fun _ valid => (identifierIf_spans valid).mono fun _ _ h => h.2

theorem identifier_reads : identifier.ReadsNode := identifierIf_reads _

theorem propertyWord_reads : propertyWord.ReadsNode := identifierIf_reads _

theorem moduleSpecifier_reads : moduleSpecifier.ReadsNode := by
  intro s valid
  rw [moduleSpecifier, yields_kind]
  split
  · exact stringLiteral_reads valid
  · exact (Laid.start valid).failed

/-! ## Names -/

theorem optionalName_reads (role : Role) : (optionalName role).ReadsNodes := by
  intro s valid
  rw [optionalName, yields_kind]
  split
  · exact (Laid.start valid).read identifier_reads fun name t h => .pure (h.loose (by simp))
  · exact .pure (Laid.start valid)

theorem propertyName_reads : propertyName.ReadsNode := by
  intro s valid
  rw [propertyName, yields_kind]
  split
  · exact stringLiteral_reads valid
  · exact sourceLiteral_reads valid
  · exact sourceLiteral_reads valid
  · rw [yields_here]
    refine (Laid.start valid).advance fun t h => ?_
    refine h.read (need_reads _) fun expression u h => ?_
    refine h.require fun v h => ?_
    exact .pure (h.close rfl rfl rfl (by simp))
  · exact propertyWord_reads valid

theorem entityName_reads : entityName.ReadsNode := by
  intro s valid
  rw [entityName, yields_here]
  refine (Laid.start valid).read identifier_reads fun first t h => ?_
  refine .loop (fun left u => Laid true s.toReading [left] u.toReading) (fun left u h => ?_) h
  refine h.skip fun more v h => ?_
  split
  · exact h.read propertyWord_reads fun right w h => .pure (h.close rfl rfl rfl (by simp))
  · exact .pure h

/-! ## Repetition -/

section Repetition

variable {item : Parser Node}

theorem afterToken_reads {k : Kind} {role : Role} (hitem : item.ReadsNode) :
    (afterToken k role item).ReadsNodes := by
  intro s valid
  refine (Laid.start valid).skip fun found t h => ?_
  split
  · exact h.read hitem fun n u h => .pure (h.loose (by simp))
  · exact .pure h

theorem manyWhile_reads {test : Parser Bool} (hitem : item.ReadsNode) :
    (manyWhile test item).ReadsNodes := by
  intro s valid
  refine .loop (fun found t => Laid false s.toReading found.reverse t.toReading)
    (fun found t h => ?_) (Laid.start valid)
  refine h.skip fun more u h => ?_
  split
  · exact h.read hitem fun n v h => .pure (h.loose (by simp))
  · exact .pure h

theorem commaList_reads {stop : Kind → Bool} (hitem : item.ReadsNode) :
    (commaList stop item).ReadsNodes := by
  intro s valid
  refine .loop (fun found t => Laid false s.toReading found.reverse t.toReading)
    (fun found t h => ?_) (Laid.start valid)
  rw [yields_kind]
  split
  · exact .pure h
  · refine h.read hitem fun n u h => h.skip fun more v h => ?_
    split
    · exact .pure (h.loose (by simp))
    · exact .pure (h.loose (by simp))

theorem someByComma_reads (hitem : item.ReadsNode) : (someByComma item).ReadsNodes := by
  intro s valid
  refine .loop (fun found t => Laid false s.toReading found.reverse t.toReading)
    (fun found t h => ?_) (Laid.start valid)
  refine h.read hitem fun n u h => h.skip fun more v h => ?_
  split
  · exact .pure (h.loose (by simp))
  · exact .pure (h.loose (by simp))

theorem elementsWithHoles_reads {k : Kind} (hk : k = .hole ∨ k = .omittedExpression)
    (hitem : item.ReadsNode) : (elementsWithHoles k item).ReadsNodes := by
  intro s valid
  refine .loop (fun found t => Laid false s.toReading found.reverse t.toReading)
    (fun found t h => ?_) (Laid.start valid)
  rw [yields_kind]
  split
  · exact .pure h
  split
  · next comma =>
    rw [yields_here, yields_advance]
    refine .pure ?_
    have element := Laid.of_reads h.end_valid
      (.hole (n := { kind := k, span := .empty t.here }) hk rfl rfl rfl comma)
    exact (h.append element).loose (by simp)
  · refine h.read hitem fun n u h => h.skip fun more v h => ?_
    split
    · exact .pure (h.loose (by simp))
    · exact .pure (h.loose (by simp))

end Repetition

/-! ## Types after a colon -/

theorem declaredType_reads : declaredType.ReadsNodes := afterToken_reads (need_reads _)

theorem predicateSubject_reads : predicateSubject.ReadsNode := by
  intro s valid
  rw [predicateSubject, yields_kind]
  split
  · exact tokenNode_reads valid
  · exact identifier_reads valid

theorem typeOrPredicate_reads : typeOrPredicate.ReadsNode := by
  intro s valid
  rw [typeOrPredicate, yields_here, yields_kind]
  refine (Laid.start valid).skip fun isAsserts t h => ?_
  split
  · refine h.readMark (keep_reads _) fun mark u h => ?_
    refine h.read predicateSubject_reads fun subject v h => ?_
    exact h.readAll (afterToken_reads (need_reads _)) fun type w h =>
      .pure (h.closeMarked [mark] [] [] (subject.inRole .parameterName :: type) rfl rfl rfl rfl
        rfl (by simp))
  · refine h.skip fun isPredicate u h => ?_
    split
    · refine h.read predicateSubject_reads fun subject v h => h.advance fun w h => ?_
      exact h.read (need_reads _) fun type x h => .pure (h.close rfl rfl rfl (by simp))
    · exact (need_reads _ h.end_valid).mono fun n v more => h.append more

theorem returnType_reads : returnType.ReadsNodes := afterToken_reads typeOrPredicate_reads

/-! ## Type parameters and arguments -/

theorem typeParameter_reads : typeParameter.ReadsNode := by
  intro s valid
  rw [typeParameter, yields_here]
  refine (Laid.start valid).skip fun _ t h => h.read identifier_reads fun name u h => ?_
  refine h.readAll (afterToken_reads (need_reads _)) fun constraint v h => ?_
  refine h.readAll (afterToken_reads (need_reads _)) fun fallback w h => ?_
  exact .pure (h.close rfl rfl rfl (by simp))

theorem typeParameters_reads : typeParameters.ReadsListed := by
  intro s valid
  refine (Laid.start valid).skip fun found t h => ?_
  split
  · refine h.readAll (commaList_reads typeParameter_reads) fun parameters u h => ?_
    exact h.require fun v h => .pure (h.loose (by simp))
  · exact .pure h

theorem typeArguments_reads : typeArguments.ReadsSome := by
  intro s valid
  refine (Laid.start valid).require fun t h => ?_
  refine h.readAll (commaList_reads (need_reads _)) fun arguments u h => ?_
  exact h.require fun v h => .pure (h.list (by simp))

theorem optionalTypeArguments_reads : optionalTypeArguments.ReadsListed := by
  intro s valid
  rw [optionalTypeArguments, yields_kind]
  split
  · exact (Laid.start valid).readSome typeArguments_reads fun arguments t h =>
      .pure (h.loose (by simp))
  · exact .pure (Laid.start valid)

/-! ## Binding patterns -/

theorem initializer_reads : initializer.ReadsNodes := afterToken_reads (need_reads _)

theorem boundProperty_reads : boundProperty.ReadsSome := by
  intro s valid
  refine (Laid.start valid).read propertyName_reads fun property t h => ?_
  refine h.skip fun found u h => ?_
  split
  · exact h.read (need_reads _) fun name v h => .pure (h.list (by simp))
  split
  · exact .pure (h.list (by simp))
  · exact h.failed

theorem boundRest_reads : boundRest.ReadsSome := by
  intro s valid
  exact (Laid.start valid).read (need_reads _) fun name t h => .pure (h.list (by simp))

theorem boundNames_reads (isRest : Bool) : (boundNames isRest).ReadsSome := by
  cases isRest with
  | false => exact boundProperty_reads
  | true => exact boundRest_reads

theorem objectBindingElement_reads : objectBindingElement.ReadsNode := by
  intro s valid
  rw [objectBindingElement, yields_here]
  refine (Laid.start valid).readMarks (keepIf_reads _ _) fun rest t h => ?_
  refine h.readSome (boundNames_reads _) fun names u h => ?_
  refine h.readAll initializer_reads fun value v h => ?_
  exact .pure (h.closeMarked [] rest [] (names ++ value) rfl rfl rfl rfl rfl (by simp))

theorem objectBindingPattern_reads : objectBindingPattern.ReadsNode := by
  intro s valid
  rw [objectBindingPattern, yields_here]
  refine (Laid.start valid).require fun t h => ?_
  refine h.readAll (commaList_reads objectBindingElement_reads) fun elements u h => ?_
  exact h.require fun v h => .pure (h.close rfl rfl rfl (by simp))

theorem arrayBindingElement_reads : arrayBindingElement.ReadsNode := by
  intro s valid
  rw [arrayBindingElement, yields_here]
  refine (Laid.start valid).readMarks (keepIf_reads _ _) fun rest t h => ?_
  refine h.read (need_reads _) fun name u h => h.readAll initializer_reads fun value v h => ?_
  exact .pure (h.closeMarked [] rest [] (name.inRole .name :: value) rfl rfl rfl rfl rfl
    (by simp))

theorem arrayBindingPattern_reads : arrayBindingPattern.ReadsNode := by
  intro s valid
  rw [arrayBindingPattern, yields_here]
  refine (Laid.start valid).require fun t h => ?_
  refine h.readAll (elementsWithHoles_reads (.inl rfl) arrayBindingElement_reads)
    fun elements u h => ?_
  exact h.require fun v h => .pure (h.close rfl rfl rfl (by simp))

theorem bindingName_reads : bindingName.ReadsNode := by
  intro s valid
  rw [bindingName, yields_kind]
  split
  · exact objectBindingPattern_reads valid
  · exact arrayBindingPattern_reads valid
  · exact identifier_reads valid

/-! ## Parameters -/

theorem parameterName_reads : parameterName.ReadsNode := by
  intro s valid
  rw [parameterName, yields_kind]
  split
  · exact identifierHere_reads valid
  · exact need_reads _ valid

theorem parameter_reads : parameter.ReadsNode := by
  intro s valid
  rw [parameter, yields_here]
  refine (Laid.start valid).skip fun modifiers t h => ?_
  refine h.readMarks (keepIf_reads _ _) fun rest u h => h.read parameterName_reads fun name v h => ?_
  refine h.readMarks (keepIf_reads _ _) fun question w h => ?_
  refine h.readAll declaredType_reads fun type x h => h.readAll initializer_reads fun value y h => ?_
  exact .pure (h.closeMarked rest question [name.inRole .name] (type ++ value) rfl rfl rfl rfl rfl
    (by simp))

theorem parameterList_reads : parameterList.ReadsSome := by
  intro s valid
  rw [parameterList]
  refine .bind (Laid.start valid).expected fun found t ht => ?_
  obtain ⟨rfl, -, rfl⟩ := ht
  have h := (Laid.start valid).then_advance
  refine h.readAll (commaList_reads parameter_reads) fun parameters u h => ?_
  exact h.require fun v h => .pure (h.list (by simp))

theorem signature_reads : signature.ReadsListedSome := by
  intro s valid
  refine (Laid.start valid).readListed typeParameters_reads fun lists typeParameters t h => ?_
  refine h.readSome parameterList_reads fun parameters u h => ?_
  exact h.readAll returnType_reads fun result v h => .pure h

/-! ## Blocks -/

theorem statements_reads {stop : Kind → Bool} : (statements stop).ReadsNodes := by
  intro s valid
  have statement_reads : Parser.ReadsNode (do
      let start ← here
      let statement ← need .statement
      if (← here) = start && !stop (← kind) then skipToStatement
      return statement) := by
    intro s valid
    rw [yields_here]
    refine (Laid.start valid).read (need_reads _) fun statement t h => ?_
    rw [yields_here, yields_kind]
    dsimp only
    split
    · exact h.skip fun _ u h => .pure h
    · exact .pure h
  exact (Laid.start valid).readAll (manyWhile_reads statement_reads) fun found t h =>
    .pure (h.list (by simp))

/-- Statements are read up to a token that stops them. -/
theorem statements_ends {stop : Kind → Bool} {s : State} :
    (statements stop).Yields s fun _ t => stop t.token.kind = true := by
  refine .bind (P := fun _ t => stop t.token.kind = true) ?_ fun _ _ h => .pure h
  refine .loop (fun _ _ => True) (fun found t _ => ?_) trivial
  refine .bind (P := fun more u => more = !stop u.token.kind) (yields_kind.2 (.pure rfl))
    fun more u goes => ?_
  split
  · exact .bind (.leads _ u) fun _ _ _ => .pure trivial
  · next stops => exact .pure (by simpa [goes] using stops)

theorem block_reads : block.ReadsNode := by
  intro s valid
  rw [block, yields_here]
  refine (Laid.start valid).require fun t h => h.readAll statements_reads fun statements u h => ?_
  exact h.require fun v h => .pure (h.close rfl rfl rfl (by simp))

end Parser
end FactorySync
