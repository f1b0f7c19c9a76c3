import FactorySync.Parse.Types
import FactorySync.Proofs.Placement.Signatures

/-!
# Types wherever they stand
-/

namespace FactorySync
namespace Parser

open Parse
open Placement

variable {L : Placement} {start start' : Nat}

/-! ## Members of interfaces and type literals -/

theorem isIndexSignature_alike : L.Alike isIndexSignature isIndexSignature Eq := by
  refine .lookAhead (.andThen .advance fun _ => .andThen .kind fun k => ?_)
  split
  · exact .andThen .advance fun _ => .andThen .kind fun _ => .pure rfl
  · exact .pure rfl

theorem indexSignature_alike (place : L.SamePlace start start') (modifiers : Modifiers) :
    L.Alike (indexSignature start modifiers) (indexSignature start' modifiers) L.SameNode := by
  refine .andThen (.require _) fun _ => ?_
  refine .bind (.commaList _ parameter_alike) fun parameters parameters' same => ?_
  refine .andThen (.require _) fun _ => .bind declaredType_alike fun type type' htype => ?_
  exact .making fun stop => .pure (.made place ((SameNodes.inRole same _).append htype) rfl rfl rfl)

theorem bareSignature_alike {k : Kind} (place : L.SamePlace start start')
    (neutral : k.isNeutral = true) :
    L.Alike (bareSignature k start) (bareSignature k start') L.SameNode := by
  refine .bind signature_alike fun parts parts' same => .making fun stop => .pure ?_
  rw [same.lists]
  exact .made place same.nodes rfl rfl neutral

theorem namedMember_alike (place : L.SamePlace start start') (modifiers : Modifiers) :
    L.Alike (namedMember start modifiers) (namedMember start' modifiers) L.SameNode := by
  refine .andThen .kind fun first => .andThen (.nextIs _) fun isAccessor => ?_
  refine .andThen (.skipIf _) fun _ => .bind propertyName_alike fun name name' hname => ?_
  refine .bind (.keepIf _ _) fun question question' hquestion => .andThen .kind fun next => ?_
  split
  · refine .bind signature_alike fun parts parts' same => .making fun stop => .pure ?_
    rw [same.lists]
    exact .marked place (.cons (hname.inRole _) same.nodes) hquestion rfl rfl rfl
  · refine .bind declaredType_alike fun type type' htype => .making fun stop => .pure ?_
    exact .marked place (.cons (hname.inRole _) htype) hquestion rfl rfl rfl

theorem typeMember_alike : L.Alike typeMember typeMember L.SameNode := by
  refine .bind .here fun start start' hstart => .andThen .kind fun first => ?_
  split
  · exact bareSignature_alike hstart rfl
  refine .andThen (.nextIs _) fun isConstructor => ?_
  split
  · exact .andThen .advance fun _ => bareSignature_alike hstart rfl
  refine .andThen modifiers_alike fun modifiers => .andThen .kind fun k => ?_
  refine .andThen isIndexSignature_alike fun isIndex => ?_
  split
  · exact indexSignature_alike hstart _
  · exact namedMember_alike hstart _

theorem typeMembers_alike : L.Alike typeMembers typeMembers L.SameNodes := by
  refine .andThen (.require _) fun _ => ?_
  refine .bind (.manyWhile (.andThen .kind fun _ => .pure rfl) ?_) fun members members' same =>
    .andThen (.require _) fun _ => .pure (SameNodes.inRole same _)
  refine .bind .here fun start start' hstart => .bind typeMember_alike fun member member' same => ?_
  refine .andThen .kind fun next => ?_
  dsimp only
  split
  · exact .andThen .advance fun _ => .pure same
  refine .bind .here fun now now' hnow => ?_
  rw [hstart, hnow]
  simp only [Nat.add_right_cancel_iff]
  split
  · exact .andThen .note fun _ => .andThen .advance fun _ => .pure same
  · exact .pure same

/-! ## Function types -/

theorem skipParameterStart_alike : L.Alike skipParameterStart skipParameterStart Eq := by
  refine .andThen modifiers_alike fun _ => .andThen .kind fun first => ?_
  split
  · exact .andThen .advance fun _ => .pure rfl
  split
  · refine .bind .noteCount fun before before' hbefore => .bind (.need rfl) fun _ _ _ => ?_
    refine .bind .noteCount fun now now' hnow => .pure ?_
    exact (counts_eq hbefore hnow).symm
  · exact .pure rfl

theorem opensFunctionType_alike : L.Alike opensFunctionType opensFunctionType Eq := by
  refine .lookAhead (.andThen .advance fun _ => .andThen .kind fun first => ?_)
  split
  · exact .pure rfl
  refine .andThen skipParameterStart_alike fun found => ?_
  split
  · refine .andThen .kind fun next => ?_
    split
    all_goals first | exact .pure rfl | exact .andThen .advance fun _ => .andThen .kind fun _ => .pure rfl
  · exact .pure rfl

theorem beginsFunctionType_alike : L.Alike beginsFunctionType beginsFunctionType Eq := by
  refine .andThen .kind fun k => ?_
  split
  · exact .pure rfl
  · exact .pure rfl
  · exact .nextIs _
  · exact opensFunctionType_alike
  · exact .pure rfl

theorem functionType_alike : L.Alike functionType functionType L.SameNode := by
  refine .bind .here fun start start' hstart => .andThen (.accept _) fun isAbstract => ?_
  refine .andThen (.accept _) fun isConstructor => ?_
  refine .bind typeParameters_alike fun typed typed' htyped => ?_
  refine .bind parameterList_alike fun parameters parameters' hparameters => ?_
  refine .andThen (.require _) fun _ => .bind typeOrPredicate_alike fun result result' hresult => ?_
  refine .making fun stop => .pure ?_
  rw [htyped.lists]
  exact .made hstart ((htyped.nodes.append hparameters).append (.cons (hresult.inRole _) .nil)) rfl
    rfl (by cases isConstructor <;> rfl)

/-! ## Types that begin with their own token -/

theorem typeArgumentsOnLine_alike :
    L.Alike typeArgumentsOnLine typeArgumentsOnLine L.SameListed := by
  refine .andThen .afterLineBreak fun isAfter => ?_
  split
  · exact .pure ⟨rfl, .nil⟩
  · exact optionalTypeArguments_alike

theorem namedType_alike {k : Kind} {role : Role} (place : L.SamePlace start start')
    (neutral : k.isNeutral = true) :
    L.Alike (namedType k role start) (namedType k role start') L.SameNode := by
  refine .bind entityName_alike fun name name' hname => ?_
  refine .bind typeArgumentsOnLine_alike fun arguments arguments' same => ?_
  refine .making fun stop => .pure ?_
  rw [same.lists]
  exact .made place (.cons (hname.inRole _) same.nodes) rfl rfl neutral

theorem isMappedType_alike : L.Alike isMappedType isMappedType Eq := by
  refine .lookAhead (.andThen .advance fun _ => .andThen .kind fun first => ?_)
  dsimp only
  split
  · exact .andThen .advance fun _ => .andThen .kind fun _ => .pure rfl
  split
  on_goal 1 => refine .andThen .advance fun _ => ?_
  all_goals
    refine .andThen (.accept _) fun found => ?_
    split
    · refine .andThen .kind fun next => ?_
      split
      · exact .andThen .advance fun _ => .andThen .kind fun _ => .pure rfl
      · exact .pure rfl
    · exact .pure rfl

theorem signed_alike (role : MarkRole) (word : Kind) :
    L.Alike (signed role word) (signed role word) L.SameMarks := by
  refine .andThen .kind fun first => ?_
  split
  · exact .bind (.keep _) fun mark mark' hmark => .pure (.cons hmark .nil)
  split
  · refine .bind (.keep _) fun sign sign' hsign => .andThen (.require _) fun _ => .pure ?_
    exact .cons hsign .nil
  · exact .pure .nil

theorem mappedType_alike : L.Alike mappedType mappedType L.SameNode := by
  refine .bind .here fun start start' hstart => .andThen (.require _) fun _ => ?_
  refine .bind (signed_alike _ _) fun readonly readonly' hreadonly => .andThen (.require _) fun _ => ?_
  refine .bind .here fun parameterStart parameterStart' hparameterStart => ?_
  refine .bind identifier_alike fun name name' hname => .andThen (.require _) fun _ => ?_
  refine .bind (.need rfl) fun constraint constraint' hconstraint => ?_
  refine .bind (.node hparameterStart (.cons (hname.inRole _) (.cons (hconstraint.inRole _) .nil)) rfl)
    fun parameter parameter' hparameter => ?_
  refine .bind (.afterToken _ _ (.need rfl)) fun nameType nameType' hnameType => ?_
  refine .andThen (.require _) fun _ => .bind (signed_alike _ _) fun question question' hquestion => ?_
  refine .bind (.afterToken _ _ (.need rfl)) fun type type' htype => .andThen .kind fun next => ?_
  refine .andThen (.skipIf _) fun _ => .andThen (.require _) fun _ => .making fun stop => .pure ?_
  exact .marked hstart (.cons (hparameter.inRole _) (hnameType.append htype))
    (List.rel_append hreadonly hquestion) rfl rfl rfl

theorem isNamedTupleMember_alike : L.Alike isNamedTupleMember isNamedTupleMember Eq := by
  refine .lookAhead (.andThen (.accept _) fun _ => .andThen .kind fun k => ?_)
  split
  · exact .andThen .advance fun _ => .andThen (.accept _) fun _ => .andThen .kind fun _ => .pure rfl
  · exact .pure rfl

theorem tupleMember_alike : L.Alike tupleMember tupleMember L.SameNode := by
  refine .bind .here fun start start' hstart => .andThen isNamedTupleMember_alike fun isNamed => ?_
  split
  · refine .bind (.keepIf _ _) fun rest rest' hrest => ?_
    refine .bind propertyWord_alike fun name name' hname => ?_
    refine .bind (.keepIf _ _) fun question question' hquestion => .andThen (.require _) fun _ => ?_
    refine .bind (.need rfl) fun type type' htype => .making fun stop => .pure ?_
    exact .marked hstart (.cons (hname.inRole _) (.cons (htype.inRole _) .nil))
      (List.rel_append hrest hquestion) rfl rfl rfl
  refine .andThen (.accept _) fun isRest => ?_
  split
  · exact .bind (.need rfl) fun type type' htype => .node hstart (.cons (htype.inRole _) .nil) rfl
  refine .bind (.need rfl) fun type type' htype => .andThen (.accept _) fun isOptional => ?_
  split
  · exact .node hstart (.cons (htype.inRole _) .nil) rfl
  · exact .pure htype

theorem tupleType_alike : L.Alike tupleType tupleType L.SameNode := by
  refine .bind .here fun start start' hstart => .andThen (.require _) fun _ => ?_
  refine .bind (.commaList _ tupleMember_alike) fun elements elements' same => ?_
  exact .andThen (.require _) fun _ => .node hstart (SameNodes.inRole same _) rfl

theorem literalType_alike {s s' : State} {literal literal' : Parser Node}
    (place : L.SamePlace start start')
    (h : L.AlikeAt s s' literal literal' fun n _ n' => L.SameNode n n') :
    L.AlikeAt s s' (literalType start literal) (literalType start' literal')
      fun n _ n' => L.SameNode n n' :=
  h.bind fun _ _ _ _ same like => Alike.node place (.cons (same.inRole _) .nil) rfl like

theorem negativeLiteral_alike {s s' : State} (like : L.Like s s') (place : L.SamePlace start start')
    (neutral : s.advance.token.kind.isNeutral = true) :
    L.AlikeAt s s' (negativeLiteral start) (negativeLiteral start')
      fun n _ n' => L.SameNode n n' := by
  refine .advance ((sourceLiteral_alike like.advance neutral).bind ?_)
  refine fun operand operand' t t' hoperand like => (?_ : L.Alike _ _ L.SameNode) like
  exact .making fun stop => .pure (.made place (.cons (hoperand.inRole _) .nil) rfl rfl rfl)

theorem primaryType_alike : L.Alike primaryType primaryType L.SameNode := by
  refine fun s s' like => .here like (.kind like ?_)
  have hstart : L.SamePlace s.here (s.here + L.distance) := rfl
  split
  · next isWord => exact .tokenNode like (Kind.isNeutral_of_isTypeWord isWord)
  split
  case h_5 => exact literalType_alike hstart (stringLiteral_alike like)
  case h_6 isNumber => exact literalType_alike hstart (sourceLiteral_alike like (isNumber ▸ rfl))
  case h_7 isNumber => exact literalType_alike hstart (sourceLiteral_alike like (isNumber ▸ rfl))
  case h_8 isTemplate => exact literalType_alike hstart (plainTemplate_alike like (isTemplate ▸ rfl))
  case h_9 isTrue => exact literalType_alike hstart (.tokenNode like (isTrue ▸ rfl))
  case h_10 isFalse => exact literalType_alike hstart (.tokenNode like (isFalse ▸ rfl))
  case h_11 =>
    refine .nextIs like ?_
    split
    · next isNumber =>
      refine literalType_alike hstart (negativeLiteral_alike like hstart ?_)
      simp only [Bool.and_eq_true, Bool.or_eq_true, beq_iff_eq] at isNumber
      obtain isNumber | isNumber := isNumber.2 <;> rw [isNumber] <;> rfl
    split
    · exact namedType_alike hstart rfl like
    · exact Alike.andThen .note (fun _ => .missing rfl Kind.noConfusion) like
  all_goals refine (?_ : L.Alike _ _ L.SameNode) like
  · exact .andThen .advance fun _ => namedType_alike hstart rfl
  · refine .andThen isMappedType_alike fun isMapped => ?_
    split
    · exact mappedType_alike
    · exact .bind typeMembers_alike fun members members' same => .node hstart same rfl
  · exact tupleType_alike
  · refine .andThen .advance fun _ => .bind (.need rfl) fun type type' htype => ?_
    exact .andThen (.require _) fun _ => .node hstart (.cons (htype.inRole _) .nil) rfl

/-! ## Operators -/

theorem postfixType_alike : L.Alike postfixType postfixType L.SameNode := by
  refine .bind .here fun start start' hstart => .bind primaryType_alike fun first first' hfirst => ?_
  refine .loop (R := L.SameNode) (fun type type' htype => ?_) hfirst
  refine .andThen .afterLineBreak fun isAfter => .andThen .kind fun k => ?_
  split
  · refine .andThen .advance fun _ => .andThen (.accept _) fun closes => ?_
    split
    · exact .bind (.node hstart (.cons (htype.inRole _) .nil) rfl) fun n n' hn => .pure (.inl hn)
    · refine .bind (.need rfl) fun index index' hindex => .andThen (.require _) fun _ => ?_
      refine .bind (.node hstart ?_ rfl) fun n n' hn => .pure (.inl hn)
      exact .cons (htype.inRole _) (.cons (hindex.inRole _) .nil)
  · exact .pure (.inr htype)

theorem inferConstraint_alike : L.Alike inferConstraint inferConstraint L.SameNodes := by
  refine .andThen .kind fun k => ?_
  split
  · refine .andThen .inExtends fun inExtends => ?_
    refine .bind (.attempt (R := L.SameNode) (.andThen .advance fun _ => .bind (.need rfl) ?_))
      fun found found' same => .pure ?_
    · refine fun type type' htype => .andThen .kind fun next => ?_
      split
      · exact .pure (.some htype)
      · exact .pure .none
    · cases same with
      | none => exact .nil
      | some htype => exact .cons (htype.inRole _) .nil
  · exact .pure .nil

theorem typeOperand_alike : L.Alike typeOperand typeOperand L.SameNode := by
  refine .bind .here fun start start' hstart => .andThen .kind fun first => ?_
  split
  case h_4 =>
    refine .andThen .advance fun _ => .bind .here fun parameterStart parameterStart' place => ?_
    refine .bind identifier_alike fun name name' hname => ?_
    refine .bind inferConstraint_alike fun constraint constraint' hconstraint => ?_
    refine .bind (.node place (.cons (hname.inRole _) hconstraint) rfl) fun parameter parameter' same => ?_
    exact .node hstart (.cons (same.inRole _) .nil) rfl
  case h_5 => exact postfixType_alike
  all_goals
    refine .andThen .advance fun _ => .bind (.need rfl) fun type type' htype => .making fun stop => ?_
    exact .pure (.made hstart (.cons (htype.inRole _) .nil) rfl rfl rfl)

theorem joinedTypes_alike {operator joined : Kind} {member member' : Parser Node}
    (hmember : L.Alike member member' L.SameNode)
    (neutral : joined.isNeutral = true) :
    L.Alike (joinedTypes operator joined member) (joinedTypes operator joined member') L.SameNode := by
  refine .bind .here fun start start' hstart => .andThen (.accept _) fun _ => ?_
  have item : L.Alike (do if ← beginsFunctionType then functionType else member)
      (do if ← beginsFunctionType then functionType else member') L.SameNode := by
    refine .andThen beginsFunctionType_alike fun begins => ?_
    split
    · exact functionType_alike
    · exact hmember
  refine .bind item fun first first' hfirst => .andThen .kind fun next => ?_
  split
  · refine .bind (.manyWhile (.accept _) item) fun others others' same => ?_
    exact .node hstart (SameNodes.inRole (.cons hfirst same) _) neutral
  · exact .pure hfirst

theorem intersectionType_alike : L.Alike intersectionType intersectionType L.SameNode :=
  joinedTypes_alike (.need rfl) rfl

theorem unionType_alike : L.Alike unionType unionType L.SameNode :=
  joinedTypes_alike intersectionType_alike rfl

theorem acceptExtends_alike : L.Alike acceptExtends acceptExtends Eq := by
  refine .andThen .inExtends fun inExtends => .andThen .afterLineBreak fun isAfter => ?_
  dsimp only
  split
  · exact .accept _
  · exact .pure rfl

theorem wholeType_alike : L.Alike wholeType wholeType L.SameNode := by
  refine .andThen beginsFunctionType_alike fun begins => ?_
  split
  · exact functionType_alike
  refine .bind .here fun start start' hstart => .bind unionType_alike fun type type' htype => ?_
  refine .andThen acceptExtends_alike fun isConditional => ?_
  split
  · refine .bind (.need rfl) fun bound bound' hbound => .andThen (.require _) fun _ => ?_
    refine .bind (.need rfl) fun whenTrue whenTrue' htrue => .andThen (.require _) fun _ => ?_
    refine .bind (.need rfl) fun whenFalse whenFalse' hfalse => .node hstart ?_ rfl
    exact .cons (htype.inRole _) (.cons (hbound.inRole _)
      (.cons (htrue.inRole _) (.cons (hfalse.inRole _) .nil)))
  · exact .pure htype

theorem typeAt_alike (inExtends : Bool) : L.Alike (typeAt inExtends) (typeAt inExtends) L.SameNode :=
  .withExtends _ (.deeper wholeType_alike)

end Parser
end FactorySync
