import FactorySync.Parse.Signatures
import FactorySync.Proofs.Placement.Rules

/-!
# Names, lists and signatures wherever they stand

One lemma for each production of the lower half of the grammar: it reads a text in the same way
wherever that is placed.
-/

namespace FactorySync
namespace Parser

open Parse
open Placement

variable {L : Placement} {start start' : Nat}

/-! ## Single tokens -/

/-- A token that may name something is made an identifier that has a name. -/
theorem identifierHere_alike {s s' : State} (like : L.Like s s')
    (isWord : s.token.kind.isPropertyWord = true) :
    L.AlikeAt s s' identifierHere identifierHere fun n _ n' => L.SameNode n n' :=
  .leaf like (by
    rw [Token.moved_span]
    exact .leaf rfl (.inr (.inl ⟨_, rfl, (like.exact.named isWord).1⟩)) Kind.noConfusion)

theorem stringLiteral_alike : L.Alike stringLiteral stringLiteral L.SameNode :=
  fun _ _ like => .leaf like (by
    rw [Token.moved_span]
    exact .leaf rfl (.inr (.inr ⟨rfl, rfl⟩)) Kind.noConfusion)

theorem sourceLiteral_alike {s s' : State} (like : L.Like s s')
    (neutral : s.token.kind.isNeutral = true) :
    L.AlikeAt s s' sourceLiteral sourceLiteral fun n _ n' => L.SameNode n n' :=
  .leaf like (by
    rw [Token.moved_span]
    exact .leaf rfl (.inr (.inr ⟨neutral, rfl⟩)) (Kind.ne_literal_of_isNeutral neutral))

theorem plainTemplate_alike {s s' : State} (like : L.Like s s')
    (neutral : s.token.kind.isNeutral = true) :
    L.AlikeAt s s' plainTemplate plainTemplate fun n _ n' => L.SameNode n n' :=
  .leaf like (by
    rw [Token.moved_span]
    exact .leaf rfl (.inr (.inr ⟨neutral, rfl⟩)) (Kind.ne_literal_of_isNeutral neutral))

theorem missingIdentifier_alike : L.Alike missingIdentifier missingIdentifier L.SameNode :=
  .missing rfl Kind.noConfusion

theorem identifierIf_alike {test : Kind → Bool} (words : ∀ k, test k = true → k.isPropertyWord = true) :
    L.Alike (identifierIf test) (identifierIf test) L.SameNode := by
  refine fun s s' like => .kind like ?_
  split
  · next isHere => exact identifierHere_alike like (words _ isHere)
  · exact Alike.andThen .note (fun _ => missingIdentifier_alike) like

theorem identifier_alike : L.Alike identifier identifier L.SameNode :=
  identifierIf_alike fun _ => Kind.isPropertyWord_of_isName

theorem propertyWord_alike : L.Alike propertyWord propertyWord L.SameNode :=
  identifierIf_alike fun _ => id

theorem moduleSpecifier_alike : L.Alike moduleSpecifier moduleSpecifier L.SameNode := by
  refine .andThen .kind fun k => ?_
  split
  · exact stringLiteral_alike
  · exact .andThen .note fun _ => .missing rfl Kind.noConfusion

/-! ## Names -/

theorem optionalName_alike (role : Role) :
    L.Alike (optionalName role) (optionalName role) L.SameNodes := by
  refine .andThen .kind fun k => ?_
  split
  · exact .bind identifier_alike fun name name' hname => .pure (.cons (hname.inRole _) .nil)
  · exact .pure .nil

theorem propertyName_alike : L.Alike propertyName propertyName L.SameNode := by
  refine fun s s' like => .kind like ?_
  split
  · exact stringLiteral_alike like
  · next isNumber => exact sourceLiteral_alike like (isNumber ▸ rfl)
  · next isNumber => exact sourceLiteral_alike like (isNumber ▸ rfl)
  all_goals refine (?_ : L.Alike _ _ L.SameNode) like
  · refine .bind .here fun start start' hstart => .andThen .advance fun _ => ?_
    refine .bind (.need rfl) fun expression expression' hexpression => .andThen (.require _) fun _ => ?_
    exact .node hstart (.cons (hexpression.inRole _) .nil) rfl
  · exact propertyWord_alike

/-- A name that is there is the first part of itself. -/
theorem firstName_of_names {n : Node} {P : String → Prop} (names : n.Names P) (complete : n.Complete) :
    P n.firstName := by
  obtain missing | ⟨x, name, hx⟩ := names
  · exact absurd (missing.symm.trans complete.present) nofun
  · obtain ⟨⟩ := n
    rename_i detail _ _ _
    cases detail <;> cases name
    exact hx

theorem entityName_alike : L.Alike entityName entityName L.SameNode := by
  refine .bind .here fun start start' hstart => ?_
  refine .bind (identifier_alike.also fun _ _ exact _ _ hrun => identifier_names exact hrun)
    fun first first' hfirst => ?_
  -- however long the name grows its first part stays the same
  refine .loop (R := fun left left' => L.SameNode left left' ∧ (left.Complete → IsWord left.firstName))
    (fun left left' hleft => .andThen (.accept _) fun found => ?_)
    ⟨hfirst.1, fun complete => (firstName_of_names hfirst.2 complete).word⟩
  split
  · refine .bind propertyWord_alike fun right right' hright => .making fun stop => .pure (.inl ?_)
    have named (n : Node) (detail : n.detail = .none)
        (children : n.children = [left.inRole .left, right.inRole .right]) (complete : n.Complete) :
        IsWord n.firstName := by
      have mem : left.inRole .left ∈ n.children := by simp [children]
      have word := hleft.2 (complete.child mem).ofRole
      obtain ⟨⟩ := n
      obtain ⟨⟩ := left
      cases detail
      cases children
      exact word
    have parts := List.Forall₂.cons (hleft.1.inRole .left) (.cons (hright.inRole .right) .nil)
    refine ⟨.ofParts hstart parts .nil rfl (fun _ _ mem => absurd mem List.not_mem_nil) rfl
      Kind.noConfusion (fun n kind detail children complete x hx => ?_) Kind.noConfusion,
      named _ rfl rfl⟩
    rw [Node.ownNames, kind] at hx
    exact List.mem_singleton.1 hx ▸ named n detail children complete
  · exact .pure (.inr hleft.1)

/-! ## Lists -/

theorem elementsWithHoles_alike {k : Kind} {item item' : Parser Node}
    (hitem : L.Alike item item' L.SameNode) (neutral : k.isNeutral = true) :
    L.Alike (elementsWithHoles k item) (elementsWithHoles k item') L.SameNodes := by
  refine .loop (R := L.SameNodes) (fun found found' hfound => .andThen .kind fun next => ?_) .nil
  split
  · exact .pure (.inr (List.rel_reverse hfound))
  split
  · refine .bind .here fun start start' hstart => .andThen .advance fun _ => .pure (.inl ?_)
    rw [hstart]
    exact .cons (.leaf rfl (.inr (.inr ⟨neutral, rfl⟩)) (Kind.ne_literal_of_isNeutral neutral)) hfound
  · exact .bind hitem fun n n' hn => .comma (.cons hn hfound)

/-! ## Modifiers -/

theorem isModifierHere_alike : L.Alike isModifierHere isModifierHere Eq := by
  refine .andThen .kind fun word => .lookAhead (.andThen .advance fun _ => .andThen .kind ?_)
  intro next
  split
  · exact .pure rfl
  · exact .pure rfl
  · exact .pure rfl
  · exact .andThen .afterLineBreak fun _ => .pure rfl

theorem modifiers_alike : L.Alike modifiers modifiers Eq := by
  refine .loop (R := Eq) (fun found found' hfound => .andThen .kind fun word => ?_) rfl
  subst hfound
  dsimp only
  split
  · refine .andThen isModifierHere_alike fun isHere => ?_
    split
    · exact .andThen .advance fun _ => .pure (.inl rfl)
    · exact .pure (.inr rfl)
  · exact .pure (.inr rfl)

/-! ## Types after a colon -/

theorem declaredType_alike : L.Alike declaredType declaredType L.SameNodes := .afterToken _ _ (.need rfl)

theorem predicateSubject_alike : L.Alike predicateSubject predicateSubject L.SameNode := by
  refine fun s s' like => .kind like ?_
  split
  · next isThis => exact .tokenNode like (isThis ▸ rfl)
  · exact identifier_alike like

theorem typeOrPredicate_alike : L.Alike typeOrPredicate typeOrPredicate L.SameNode := by
  refine .bind .here fun start start' hstart => .andThen .kind fun first => ?_
  refine .andThen (.nextOnLineIs _) fun isAsserts => ?_
  split
  · refine .bind (.keep _) fun mark mark' hmark => ?_
    refine .bind predicateSubject_alike fun subject subject' hsubject => ?_
    refine .bind (.afterToken _ _ (.need rfl)) fun type type' htype => .making fun stop => .pure ?_
    exact .marked hstart (.cons (hsubject.inRole _) htype) (.cons hmark .nil) rfl rfl rfl
  · refine .andThen (.nextOnLineIs _) fun isPredicate => ?_
    split
    · refine .bind predicateSubject_alike fun subject subject' hsubject => ?_
      refine .andThen .advance fun _ => .bind (.need rfl) fun type type' htype => ?_
      exact .node hstart (.cons (hsubject.inRole _) (.cons (htype.inRole _) .nil)) rfl
    · exact .need rfl

theorem returnType_alike : L.Alike returnType returnType L.SameNodes :=
  .afterToken _ _ typeOrPredicate_alike

/-! ## Type parameters and arguments -/

theorem typeParameter_alike : L.Alike typeParameter typeParameter L.SameNode := by
  refine .bind .here fun start start' hstart => ?_
  refine .andThen (.loop (R := Eq) (fun _ _ _ => ?_) rfl) fun _ => ?_
  · refine .bind .token fun t t' ht => ?_
    subst ht
    refine .andThen (.nextIs _) fun beforeName => ?_
    split
    · next variance =>
      rw [if_pos (by exact variance)]
      exact .andThen .advance fun _ => .pure (.inl rfl)
    · next none =>
      rw [if_neg (by exact none)]
      exact .pure (.inr rfl)
  · refine .bind identifier_alike fun name name' hname => ?_
    refine .bind (.afterToken _ _ (.need rfl)) fun constraint constraint' hconstraint => ?_
    refine .bind (.afterToken _ _ (.need rfl)) fun fallback fallback' hfallback => ?_
    exact .node hstart (.cons (hname.inRole _) (hconstraint.append hfallback)) rfl

theorem typeParameters_alike : L.Alike typeParameters typeParameters L.SameListed := by
  refine .andThen (.accept _) fun found => ?_
  split
  · refine .bind (.commaList _ typeParameter_alike) fun parameters parameters' same => ?_
    exact .andThen (.require _) fun _ => .pure ⟨rfl, SameNodes.inRole same _⟩
  · exact .pure ⟨rfl, .nil⟩

theorem typeArguments_alike : L.Alike typeArguments typeArguments L.SameNodes := by
  refine .andThen (.require _) fun _ => .bind (.commaList _ (.need rfl)) fun arguments arguments' same => ?_
  exact .andThen (.require _) fun _ => .pure (SameNodes.inRole same _)

theorem optionalTypeArguments_alike :
    L.Alike optionalTypeArguments optionalTypeArguments L.SameListed := by
  refine .andThen .kind fun k => ?_
  split
  · exact .bind typeArguments_alike fun arguments arguments' same => .pure ⟨rfl, same⟩
  · exact .pure ⟨rfl, .nil⟩

/-! ## Binding patterns -/

theorem initializer_alike : L.Alike initializer initializer L.SameNodes := .afterToken _ _ (.need rfl)

theorem boundProperty_alike : L.Alike boundProperty boundProperty L.SameNodes := by
  refine .bind propertyName_alike fun property property' hproperty => ?_
  refine .andThen (.accept _) fun found => ?_
  split
  · refine .bind (.need rfl) fun name name' hname => .pure ?_
    exact .cons (hproperty.inRole _) (.cons (hname.inRole _) .nil)
  rw [hproperty.kind_eq]
  split
  · exact .pure (.cons (hproperty.inRole _) .nil)
  · refine .andThen .note fun _ => .bind missingIdentifier_alike fun name name' hname => .pure ?_
    exact .cons (hproperty.inRole _) (.cons (hname.inRole _) .nil)

theorem boundRest_alike : L.Alike boundRest boundRest L.SameNodes :=
  .bind (.need rfl) fun _ _ hname => .pure (.cons (hname.inRole _) .nil)

theorem boundNames_alike (isRest : Bool) :
    L.Alike (boundNames isRest) (boundNames isRest) L.SameNodes := by
  cases isRest with
  | false => exact boundProperty_alike
  | true => exact boundRest_alike

theorem objectBindingElement_alike :
    L.Alike objectBindingElement objectBindingElement L.SameNode := by
  refine .bind .here fun start start' hstart => .bind (.keepIf _ _) fun rest rest' hrest => ?_
  rw [isEmpty_eq hrest]
  refine .bind (boundNames_alike _) fun names names' hnames => ?_
  refine .bind initializer_alike fun value value' hvalue => .making fun stop => .pure ?_
  exact .marked hstart (hnames.append hvalue) hrest rfl rfl rfl

theorem objectBindingPattern_alike :
    L.Alike objectBindingPattern objectBindingPattern L.SameNode := by
  refine .bind .here fun start start' hstart => .andThen (.require _) fun _ => ?_
  refine .bind (.commaList _ objectBindingElement_alike) fun elements elements' same => ?_
  exact .andThen (.require _) fun _ => .node hstart (SameNodes.inRole same _) rfl

theorem arrayBindingElement_alike : L.Alike arrayBindingElement arrayBindingElement L.SameNode := by
  refine .bind .here fun start start' hstart => .bind (.keepIf _ _) fun rest rest' hrest => ?_
  refine .bind (.need rfl) fun name name' hname => .bind initializer_alike fun value value' hvalue => ?_
  exact .making fun stop => .pure (.marked hstart (.cons (hname.inRole _) hvalue) hrest rfl rfl rfl)

theorem arrayBindingPattern_alike : L.Alike arrayBindingPattern arrayBindingPattern L.SameNode := by
  refine .bind .here fun start start' hstart => .andThen (.require _) fun _ => ?_
  refine .bind (elementsWithHoles_alike arrayBindingElement_alike rfl) fun elements elements' same => ?_
  exact .andThen (.require _) fun _ => .node hstart (SameNodes.inRole same _) rfl

theorem bindingName_alike : L.Alike bindingName bindingName L.SameNode := by
  refine .andThen .kind fun k => ?_
  split
  · exact objectBindingPattern_alike
  · exact arrayBindingPattern_alike
  · exact identifier_alike

/-! ## Parameters -/

theorem parameterName_alike : L.Alike parameterName parameterName L.SameNode := by
  refine fun s s' like => .kind like ?_
  split
  · next isThis => exact identifierHere_alike like (by rw [isThis]; rfl)
  · refine (?_ : L.Alike _ _ L.SameNode) like
    exact .need rfl

theorem parameter_alike : L.Alike parameter parameter L.SameNode := by
  refine .bind .here fun start start' hstart => .andThen modifiers_alike fun modifiers => ?_
  refine .bind (.keepIf _ _) fun rest rest' hrest => ?_
  refine .bind parameterName_alike fun name name' hname => ?_
  refine .bind (.keepIf _ _) fun question question' hquestion => ?_
  refine .bind declaredType_alike fun type type' htype => ?_
  refine .bind initializer_alike fun value value' hvalue => .making fun stop => .pure ?_
  exact .marked hstart (.cons (hname.inRole _) (htype.append hvalue))
    (List.rel_append hrest hquestion) rfl rfl rfl

theorem parameterList_alike : L.Alike parameterList parameterList L.SameNodes := by
  refine .andThen (.expect _) fun found => ?_
  split
  · refine .bind (.commaList _ parameter_alike) fun parameters parameters' same => ?_
    exact .andThen (.require _) fun _ => .pure (SameNodes.inRole same _)
  · exact .pure .nil

theorem signature_alike : L.Alike signature signature L.SameListed := by
  refine .bind typeParameters_alike fun typed typed' htyped => ?_
  refine .bind parameterList_alike fun parameters parameters' hparameters => ?_
  refine .bind returnType_alike fun result result' hresult => .pure ?_
  exact ⟨htyped.lists, (htyped.nodes.append hparameters).append hresult⟩

/-! ## Blocks -/

theorem skipToStatement_alike : L.Alike skipToStatement skipToStatement Eq := by
  refine .andThen .advance fun _ => .loop (R := Eq) (fun _ _ _ => .andThen .kind fun k => ?_) rfl
  split
  · exact .pure (.inr rfl)
  split
  · exact .andThen .advance fun _ => .pure (.inr rfl)
  split
  · exact .pure (.inr rfl)
  · exact .andThen .advance fun _ => .pure (.inl rfl)

/-- One of several statements. If it consumes nothing, tokens are passed over. -/
def oneStatement (stop : Kind → Bool) : Parser Node := do
  let start ← here
  let statement ← need .statement
  if (← here) = start && !stop (← kind) then skipToStatement
  return statement

theorem statements_eq (stop : Kind → Bool) : statements stop = (do
    let found ← manyWhile (return !stop (← kind)) (oneStatement stop)
    return found.map (·.inRole .statements)) := rfl

theorem oneStatement_alike (stop : Kind → Bool) :
    L.Alike (oneStatement stop) (oneStatement stop) L.SameNode := by
  refine .bind .here fun start start' hstart => .bind (.need rfl) fun statement statement' same => ?_
  refine .bind .here fun now now' hnow => .andThen .kind fun k => ?_
  rw [hstart, hnow]
  simp only [Nat.add_right_cancel_iff]
  split
  · exact .andThen skipToStatement_alike fun _ => .pure same
  · exact .pure same

theorem statements_alike (stop : Kind → Bool) :
    L.Alike (statements stop) (statements stop) L.SameNodes := by
  rw [statements_eq]
  refine .bind (.manyWhile (.andThen .kind fun k => .pure rfl) (oneStatement_alike stop)) ?_
  exact fun found found' same => .pure (SameNodes.inRole same _)

theorem block_alike : L.Alike block block L.SameNode := by
  refine .bind .here fun start start' hstart => .andThen (.require _) fun _ => ?_
  refine .bind (statements_alike _) fun statements statements' same => ?_
  exact .andThen (.require _) fun _ => .node hstart same rfl

end Parser
end FactorySync
