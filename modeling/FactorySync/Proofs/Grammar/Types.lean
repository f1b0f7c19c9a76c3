import FactorySync.Parse.Types
import FactorySync.Proofs.Grammar.Signatures

/-!
# Types stand for what they were read from

One lemma for each production of types. What a production reads on trial or only to look ahead
leaves no nodes, so it counts as consumed or not at all.
-/

namespace FactorySync
namespace Parser

open Parse

/-! ## Members -/

theorem indexSignature_reads {s t : State} {moved : Bool} {modifiers : Modifiers}
    (h : Laid moved s.toReading [] t.toReading) :
    (indexSignature s.here modifiers).Yields t fun n u =>
      Laid true s.toReading [n] u.toReading := by
  refine h.require fun u h => ?_
  refine h.readAll (commaList_reads parameter_reads) fun parameters v h => h.require fun w h => ?_
  exact h.readAll declaredType_reads fun type x h => .pure (h.close rfl rfl rfl (by simp))

theorem bareSignature_reads {s t : State} {moved : Bool} {k : Kind}
    (hk : k.isSpecial = false) (h : Laid moved s.toReading [] t.toReading) :
    (bareSignature k s.here).Yields t fun n u => Laid true s.toReading [n] u.toReading :=
  h.readListedSome signature_reads fun _ _ _ h => .pure (h.close hk rfl rfl (by simp))

theorem namedMember_reads {s t : State} {moved : Bool} {modifiers : Modifiers}
    (h : Laid moved s.toReading [] t.toReading) :
    (namedMember s.here modifiers).Yields t fun n u => Laid true s.toReading [n] u.toReading := by
  rw [namedMember, yields_kind]
  refine h.skip fun isAccessor u h => h.skip fun _ v h => ?_
  refine h.read propertyName_reads fun name w h => ?_
  refine h.readMarks (keepIf_reads _ _) fun question x h => ?_
  rw [yields_kind]
  split
  · exact h.readListedSome signature_reads fun lists parts y h =>
      .pure (h.closeMarked [] question [name.inRole .name] parts rfl rfl rfl rfl rfl (by simp))
  · exact h.readAll declaredType_reads fun type y h =>
      .pure (h.closeMarked [] question [name.inRole .name] type rfl rfl rfl rfl rfl (by simp))

theorem typeMember_reads : typeMember.ReadsNode := by
  intro s valid
  rw [typeMember, yields_here, yields_kind]
  have h := Laid.start valid
  split
  · exact bareSignature_reads rfl h
  refine h.skip fun isConstructor t h => ?_
  split
  · exact h.advance fun u h => bareSignature_reads rfl h
  refine h.skip fun modifiers u h => ?_
  rw [yields_kind]
  refine h.skip fun isIndex v h => ?_
  split
  · exact indexSignature_reads h
  · exact namedMember_reads h

/-- A member with what separates it from the next one. -/
def separatedMember : Parser Node := do
  let start ← here
  let member ← typeMember
  let next ← kind
  if next = .semicolon ∨ next = .comma then advance
  else if (← here) = start then
    note .unexpectedToken Problem.unexpectedToken_isError
    advance
  return member

theorem typeMembers_eq : typeMembers = (do
    require .openBrace
    let members ← manyWhile (return !(← kind).endsBlock) separatedMember
    require .closeBrace
    return members.map (·.inRole .members)) := rfl

theorem separatedMember_reads : separatedMember.ReadsNode := by
  intro s valid
  rw [separatedMember, yields_here]
  refine (Laid.start valid).read typeMember_reads fun member t h => ?_
  rw [yields_kind]
  dsimp only
  split
  · exact h.skip fun _ u h => .pure h
  · rw [yields_here]
    split
    · exact h.failed
    · exact .pure h

theorem typeMembers_reads : typeMembers.ReadsSome := by
  intro s valid
  rw [typeMembers_eq]
  refine (Laid.start valid).require fun t h => ?_
  refine h.readAll (manyWhile_reads separatedMember_reads) fun members u h => ?_
  exact h.require fun v h => .pure (h.list (by simp))

/-! ## Function types -/

theorem functionType_reads : functionType.ReadsNode := by
  intro s valid
  rw [functionType, yields_here]
  refine (Laid.start valid).skip fun isAbstract t h => h.skip fun isConstructor u h => ?_
  refine h.readListed typeParameters_reads fun lists typeParameters v h => ?_
  refine h.readSome parameterList_reads fun parameters w h => h.require fun x h => ?_
  refine h.read typeOrPredicate_reads fun result y h => .pure (h.close ?_ rfl rfl (by simp))
  show Kind.isSpecial (if isConstructor = true then .constructorType else .functionType) = false
  split <;> rfl

/-! ## Types that begin with their own token -/

theorem typeArgumentsOnLine_reads : typeArgumentsOnLine.ReadsListed := by
  intro s valid
  refine (Laid.start valid).skip fun isOver t h => ?_
  split
  · exact .pure h
  · exact (optionalTypeArguments_reads h.end_valid).mono fun _ _ more => h.append more

theorem namedType_reads {s t : State} {moved : Bool} {k : Kind} {role : Role}
    (hk : k.isSpecial = false) (h : Laid moved s.toReading [] t.toReading) :
    (namedType k role s.here).Yields t fun n u => Laid true s.toReading [n] u.toReading := by
  refine h.read entityName_reads fun name u h => ?_
  exact h.readListed typeArgumentsOnLine_reads fun lists arguments v h =>
    .pure (h.close hk rfl rfl (by simp))

theorem signed_reads (role : MarkRole) (word : Kind) : (signed role word).ReadsMarks := by
  intro s valid
  rw [signed, yields_kind]
  have h := Laid.start valid
  split
  · exact h.readMark (keep_reads role) fun m t h => .pure (h.loose (by simp))
  split
  · exact h.readMark (keep_reads role) fun m t h => h.require fun u h => .pure (h.loose (by simp))
  · exact .pure h

theorem mappedType_reads : mappedType.ReadsNode := by
  intro s valid
  rw [mappedType, yields_here]
  refine (Laid.start valid).require fun t h => h.readMarks (signed_reads _ _) fun readonly u h => ?_
  refine h.require fun v h => ?_
  rw [yields_here]
  have parameter := Laid.start h.end_valid
  refine parameter.read identifier_reads fun name w parameter =>
    parameter.require fun x parameter => ?_
  refine parameter.read (need_reads _) fun constraint y parameter => ?_
  rw [yields_node]
  have h := h.append (parameter.close (n := {
    kind := .typeParameter, span := ⟨v.here, y.lastEnd⟩,
    children := [name.inRole .name, constraint.inRole .constraint] }) rfl rfl rfl (by simp))
  refine h.readAll (afterToken_reads (need_reads _)) fun nameType z h => h.require fun z h => ?_
  refine h.readMarks (signed_reads _ _) fun question z h => ?_
  refine h.readAll (afterToken_reads (need_reads _)) fun type z h => ?_
  rw [yields_kind]
  refine h.skip fun _ z h => h.require fun z h => .pure ?_
  exact h.closeMarked readonly question (_ :: nameType) type rfl rfl rfl rfl rfl (by simp)

theorem tupleMember_reads : tupleMember.ReadsNode := by
  intro s valid
  rw [tupleMember, yields_here]
  refine (Laid.start valid).skip fun isNamed t h => ?_
  split
  · refine h.readMarks (keepIf_reads _ _) fun rest u h => h.read propertyWord_reads fun name v h => ?_
    refine h.readMarks (keepIf_reads _ _) fun question w h => h.require fun x h => ?_
    exact h.read (need_reads _) fun type y h => .pure (h.closeMarked rest question
      [name.inRole .name] [type.inRole .typeNode] rfl rfl rfl rfl rfl (by simp))
  refine h.skip fun isRest u h => ?_
  split
  · exact h.read (need_reads _) fun type v h => .pure (h.close rfl rfl rfl (by simp))
  · refine h.read (need_reads _) fun type v h => h.skip fun isOptional w h => ?_
    split
    · exact .pure (h.close rfl rfl rfl (by simp))
    · exact .pure h

theorem tupleType_reads : tupleType.ReadsNode := by
  intro s valid
  rw [tupleType, yields_here]
  refine (Laid.start valid).require fun t h => ?_
  refine h.readAll (commaList_reads tupleMember_reads) fun elements u h => ?_
  exact h.require fun v h => .pure (h.close rfl rfl rfl (by simp))

theorem literalType_reads {s t : State} {literal : Parser Node}
    (h : literal.Yields t fun n u => Laid true s.toReading [n] u.toReading) :
    (literalType s.here literal).Yields t fun n u => Laid true s.toReading [n] u.toReading :=
  .bind h fun _ _ h => .pure (h.close rfl rfl rfl (by simp))

theorem negativeLiteral_reads {s t : State} {moved : Bool}
    (h : Laid moved s.toReading [] t.toReading) :
    (negativeLiteral s.here).Yields t fun n u => Laid true s.toReading [n] u.toReading :=
  h.advance fun _ h => h.read sourceLiteral_reads fun _ _ h =>
    .pure (h.close rfl rfl rfl (by simp))

theorem primaryType_reads : primaryType.ReadsNode := by
  intro s valid
  rw [primaryType, yields_here, yields_kind]
  have h := Laid.start valid
  split
  · exact tokenNode_reads valid
  split
  · exact h.advance fun t h => namedType_reads rfl h
  · refine h.skip fun isMapped t h => ?_
    split
    · exact (mappedType_reads h.end_valid).mono fun _ _ more => h.append more
    · exact h.readSome typeMembers_reads fun members u h => .pure (h.close rfl rfl rfl (by simp))
  · exact tupleType_reads valid
  · refine h.advance fun t h => h.read (need_reads _) fun type u h => ?_
    exact h.require fun v h => .pure (h.close rfl rfl rfl (by simp))
  · exact literalType_reads (stringLiteral_reads valid)
  · exact literalType_reads (sourceLiteral_reads valid)
  · exact literalType_reads (sourceLiteral_reads valid)
  · exact literalType_reads (plainTemplate_reads valid)
  · exact literalType_reads (tokenNode_reads valid)
  · exact literalType_reads (tokenNode_reads valid)
  · refine h.skip fun isNegative t h => ?_
    split
    · exact literalType_reads (negativeLiteral_reads h)
    split
    · exact namedType_reads rfl h
    · exact h.failed

/-! ## Operators -/

theorem postfixType_reads : postfixType.ReadsNode := by
  intro s valid
  rw [postfixType, yields_here]
  refine (Laid.start valid).read primaryType_reads fun first t h => ?_
  refine .loop (fun type u => Laid true s.toReading [type] u.toReading) (fun type u h => ?_) h
  refine h.skip fun isOver v h => ?_
  rw [yields_kind]
  split
  · refine h.advance fun w h => h.skip fun isArray x h => ?_
    split
    · exact .pure (h.close rfl rfl rfl (by simp))
    · refine h.read (need_reads _) fun index y h => h.require fun z h => ?_
      exact .pure (h.close rfl rfl rfl (by simp))
  · exact .pure h

theorem inferConstraint_reads : inferConstraint.ReadsNodes := by
  intro s valid
  have h := Laid.start valid
  have bound_reads (inExtends : Bool) : Parser.ReadsFound (do
      advance
      let type ← need .boundType
      if inExtends || (← kind) != .question then return some type else return none) := by
    intro s valid
    refine (Laid.start valid).advance fun t h => h.read (need_reads _) fun type u h => ?_
    rw [yields_kind]
    split
    · exact .pure fun n hn => by cases hn; exact h
    · exact .pure nofun
  rw [inferConstraint, yields_kind]
  split
  · rw [yields_view]
    refine h.readFound (fun s valid => .attempt ?_ nofun) (fun type t h =>
      .pure (h.loose (by simp)))
      fun t h => .pure h
    exact (bound_reads _ valid).mono fun found t hfound type htype n hn => hfound n (htype ▸ hn)
  · exact .pure h

theorem typeOperand_reads : typeOperand.ReadsNode := by
  intro s valid
  rw [typeOperand, yields_here, yields_kind]
  have h := Laid.start valid
  split
  · exact h.advance fun t h => h.read (need_reads _) fun type u h =>
      .pure (h.close rfl rfl rfl (by simp))
  · exact h.advance fun t h => h.read (need_reads _) fun type u h =>
      .pure (h.close rfl rfl rfl (by simp))
  · exact h.advance fun t h => h.read (need_reads _) fun type u h =>
      .pure (h.close rfl rfl rfl (by simp))
  · refine h.advance fun t h => ?_
    rw [yields_here]
    refine (Laid.start h.end_valid).read identifier_reads fun name u parameter => ?_
    refine parameter.readAll inferConstraint_reads fun constraint v parameter => ?_
    rw [yields_node]
    have parameter := parameter.close (n := {
      kind := .typeParameter, span := ⟨t.here, v.lastEnd⟩,
      children := name.inRole .name :: constraint }) rfl rfl rfl (by simp)
    exact .pure ((h.append parameter).close rfl rfl rfl (by simp))
  · exact postfixType_reads valid

theorem joinedTypes_reads {operator joined : Kind} {member : Parser Node}
    (hjoined : joined.isSpecial = false) (hmember : member.ReadsNode) :
    (joinedTypes operator joined member).ReadsNode := by
  intro s valid
  have member_reads : Parser.ReadsNode (do
      if ← beginsFunctionType then functionType else member) := by
    intro s valid
    refine (Laid.start valid).skip fun isFunction t h => ?_
    split
    · exact (functionType_reads h.end_valid).mono fun _ _ more => h.append more
    · exact (hmember h.end_valid).mono fun _ _ more => h.append more
  rw [joinedTypes, yields_here]
  refine (Laid.start valid).skip fun _ t h => h.read member_reads fun first u h => ?_
  rw [yields_kind]
  split
  · refine h.readAll (manyWhile_reads member_reads) fun others v h =>
      .pure (h.close hjoined rfl rfl (by simp))
  · exact .pure h

theorem intersectionType_reads : intersectionType.ReadsNode :=
  joinedTypes_reads rfl (need_reads _)

theorem unionType_reads : unionType.ReadsNode := joinedTypes_reads rfl intersectionType_reads

theorem wholeType_reads : wholeType.ReadsNode := by
  intro s valid
  refine (Laid.start valid).skip fun isFunction t h => ?_
  split
  · exact (functionType_reads h.end_valid).mono fun _ _ more => h.append more
  rw [yields_here]
  refine (Laid.start h.end_valid).read unionType_reads fun type u whole => ?_
  refine whole.skip fun isConditional v whole => ?_
  split
  · refine whole.read (need_reads _) fun bound w whole => whole.require fun x whole => ?_
    refine whole.read (need_reads _) fun whenTrue y whole => whole.require fun z whole => ?_
    exact whole.read (need_reads _) fun whenFalse z whole =>
      .pure (h.append (whole.close rfl rfl rfl (by simp)))
  · exact .pure (h.append whole)

theorem deeper_reads {p : Parser Node} (hp : p.ReadsNode) : (deeper p).ReadsNode := by
  intro s valid
  rw [deeper, yields_view]
  split
  · exact .nested (P := fun n t => Laid true s.toReading [n] t) (hp valid)
  · exact (Laid.start valid).failed

theorem typeAt_reads (inExtends : Bool) : (typeAt inExtends).ReadsNode := by
  intro s valid
  exact .withExtends (P := fun n t => Laid true s.toReading [n] t)
    (deeper_reads wholeType_reads valid)

end Parser
end FactorySync
