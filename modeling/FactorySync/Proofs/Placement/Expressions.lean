import FactorySync.Parse.Expressions
import FactorySync.Proofs.Placement.Types

/-!
# Expressions wherever they stand

Of the nodes that are made here only those of `binary` join operands by operators with a strength.
-/

namespace FactorySync
namespace Parser

open Parse
open Placement

variable {L : Placement} {start start' : Nat}

/-! ## Functions -/

theorem arrowBody_alike : L.Alike arrowBody arrowBody L.SameNode := by
  refine .andThen .kind fun k => ?_
  split
  · exact block_alike
  · exact .need rfl

theorem simpleArrow_alike (place : L.SamePlace start start') (isAsync : Bool) :
    L.Alike (simpleArrow start isAsync) (simpleArrow start' isAsync) L.SameNode := by
  refine .andThen (.skipIf _) fun _ => .bind identifier_alike fun name name' hname => ?_
  refine .andThen (.require _) fun _ => .bind arrowBody_alike fun body body' hbody => ?_
  refine .making fun stop => .pure (.made place (.cons ?_ (.cons (hbody.inRole _) .nil)) rfl rfl rfl)
  rw [hname.span_eq]
  exact .made rfl (.cons (hname.inRole _) .nil) rfl rfl rfl

theorem parenthesizedArrow_alike (place : L.SamePlace start start') (isAsync : Bool) :
    L.Alike (parenthesizedArrow start isAsync) (parenthesizedArrow start' isAsync)
      (Option.Rel L.SameNode) := by
  refine .bind .noteCount fun before before' hbefore => .andThen (.skipIf _) fun _ => ?_
  refine .bind typeParameters_alike fun typed typed' htyped => .andThen .kind fun k => ?_
  dsimp only
  split
  · refine .bind parameterList_alike fun parameters parameters' hparameters => ?_
    refine .bind returnType_alike fun result result' hresult => .andThen .kind fun next => ?_
    refine .andThen .afterLineBreak fun isAfter => .bind .noteCount fun now now' hnow => ?_
    rw [counts_eq hbefore hnow]
    split
    · refine .andThen .advance fun _ => .bind arrowBody_alike fun body body' hbody => ?_
      refine .making fun stop => .pure (.some ?_)
      rw [htyped.lists]
      exact .made place (((htyped.nodes.append hparameters).append hresult).append
        (.cons (hbody.inRole _) .nil)) rfl rfl rfl
    · exact .pure .none
  · exact .pure .none

theorem beginsSimpleArrow_alike (isAsync : Bool) :
    L.Alike (beginsSimpleArrow isAsync) (beginsSimpleArrow isAsync) Eq := by
  refine .lookAhead (.andThen (.skipIf _) fun _ => .andThen .kind fun k => ?_)
  split
  · exact .andThen .advance fun _ => .andThen .kind fun _ => .andThen .afterLineBreak fun _ => .pure rfl
  · exact .pure rfl

theorem beginsAsyncArrow_alike : L.Alike beginsAsyncArrow beginsAsyncArrow Eq := by
  refine .andThen .kind fun k => ?_
  split
  · exact .nextOnLineIs _
  · exact .pure rfl

theorem mayOpenHead_alike (isAsync : Bool) :
    L.Alike (mayOpenHead isAsync) (mayOpenHead isAsync) Eq := by
  unfold mayOpenHead
  split
  · exact .nextOnLineIs _
  · exact .andThen .kind fun _ => .pure rfl

theorem arrowFunction_alike : L.Alike arrowFunction arrowFunction (Option.Rel L.SameNode) := by
  refine .bind .here fun start start' hstart => .andThen beginsAsyncArrow_alike fun isAsync => ?_
  refine .andThen (beginsSimpleArrow_alike _) fun isSimple => ?_
  split
  · exact .bind (simpleArrow_alike hstart _) fun n n' same => .pure (.some same)
  refine .andThen (mayOpenHead_alike _) fun mayOpen => ?_
  split
  · exact .attempt (parenthesizedArrow_alike hstart _)
  · exact .pure .none

theorem functionExpression_alike (isAsync : Bool) :
    L.Alike (functionExpression isAsync) (functionExpression isAsync) L.SameNode := by
  refine .bind .here fun start start' hstart => .andThen (.require _) fun _ => ?_
  refine .bind (.keepIf _ _) fun asterisk asterisk' hasterisk => ?_
  refine .bind (optionalName_alike _) fun name name' hname => ?_
  refine .bind signature_alike fun parts parts' hparts => .bind block_alike fun body body' hbody => ?_
  refine .making fun stop => .pure ?_
  rw [hparts.lists]
  exact .marked hstart ((hname.append hparts.nodes).append (.cons (hbody.inRole _) .nil))
    hasterisk rfl rfl rfl

/-! ## Object literals -/

theorem requiredBody_alike : L.Alike requiredBody requiredBody L.SameNodes := by
  refine .andThen .kind fun k => ?_
  split
  · exact .bind block_alike fun body body' hbody => .pure (.cons (hbody.inRole _) .nil)
  · exact .andThen .note fun _ => .pure .nil

section Members

variable {name name' : Node} (place : L.SamePlace start start') (hname : L.SameNode name name')
include place hname

theorem accessor_alike (word : Kind) :
    L.Alike (accessor start word name) (accessor start' word name') L.SameNode := by
  refine .bind parameterList_alike fun parameters parameters' hparameters => ?_
  refine .bind returnType_alike fun result result' hresult => ?_
  refine .bind requiredBody_alike fun body body' hbody => .node place ?_ (by split <;> rfl)
  exact .cons hname ((hparameters.append hresult).append hbody)

theorem method_alike (modifiers : Modifiers) {asterisk asterisk' question question' : List Mark}
    (hasterisk : L.SameMarks asterisk asterisk') (hquestion : L.SameMarks question question') :
    L.Alike (method start modifiers name asterisk question)
      (method start' modifiers name' asterisk' question') L.SameNode := by
  refine .bind signature_alike fun parts parts' hparts => ?_
  refine .bind requiredBody_alike fun body body' hbody => .making fun stop => .pure ?_
  rw [hparts.lists]
  exact .marked place (.cons hname (hparts.nodes.append hbody))
    (List.rel_append hasterisk hquestion) rfl rfl rfl

end Members

theorem skipDefault_alike : L.Alike skipDefault skipDefault Eq := by
  refine .andThen (.accept _) fun found => ?_
  split
  · exact .bind (.need rfl) fun _ _ _ => .pure rfl
  · exact .pure rfl

theorem property_alike (place : L.SamePlace start start') {name name' : Node}
    (hname : L.SameNode name name') :
    L.Alike (property start name) (property start' name') L.SameNode := by
  refine .andThen (.accept _) fun found => ?_
  split
  · refine .bind (.need rfl) fun value value' hvalue => .node place ?_ rfl
    exact .cons hname (.cons (hvalue.inRole _) .nil)
  rw [hname.kind_eq]
  split
  · exact .andThen skipDefault_alike fun _ => .node place (.cons hname .nil) rfl
  · refine .andThen .note fun _ => .bind (.missing rfl Kind.noConfusion) fun value value' hvalue => ?_
    refine .node place ?_ rfl
    exact .cons hname (.cons (hvalue.inRole _) .nil)

theorem accessorWord_alike (isAllowed : Bool) :
    L.Alike (accessorWord isAllowed) (accessorWord isAllowed) Eq := by
  refine .andThen .kind fun word => .andThen (.nextIs _) fun begins => ?_
  split
  · exact .andThen .advance fun _ => .pure rfl
  · exact .pure rfl

theorem asyncWord_alike : L.Alike asyncWord asyncWord Eq := by
  refine .andThen .kind fun word => .andThen (.nextOnLineIs _) fun begins => ?_
  split
  · exact .andThen .advance fun _ => .pure rfl
  · exact .pure rfl

theorem objectMember_alike : L.Alike objectMember objectMember L.SameNode := by
  refine .bind .here fun start start' hstart => .andThen (.accept _) fun isSpread => ?_
  split
  · exact .bind (.need rfl) fun value value' hvalue => .node hstart (.cons (hvalue.inRole _) .nil) rfl
  refine .andThen asyncWord_alike fun isAsync => ?_
  refine .bind (.keepIf _ _) fun asterisk asterisk' hasterisk => ?_
  rw [isEmpty_eq hasterisk]
  refine .andThen (accessorWord_alike _) fun word => ?_
  refine .bind propertyName_alike fun name name' hname => ?_
  dsimp only
  split
  · exact accessor_alike hstart (hname.inRole _) _
  refine .bind (.keepIf _ _) fun question question' hquestion => .andThen .kind fun next => ?_
  split
  · exact method_alike hstart (hname.inRole _) _ hasterisk hquestion
  · exact property_alike hstart (hname.inRole _)

/-- The same member, with the comma behind it, if there is one. -/
structure SameMember (L : Placement) (m m' : Node × Option Nat) : Prop where
  node : L.SameNode m.1 m'.1
  role : m.1.role = .properties
  comma : m'.2 = m.2.map (· + L.distance)

theorem SameMember.nodes {ms ms' : List (Node × Option Nat)}
    (h : List.Forall₂ (SameMember L) ms ms') : L.SameNodes (ms.map (·.1)) (ms'.map (·.1)) :=
  List.forall₂_map_left_iff.2 (List.forall₂_map_right_iff.2 (h.imp fun _ _ same => same.node))

theorem SameMember.commas {ms ms' : List (Node × Option Nat)}
    (h : List.Forall₂ (SameMember L) ms ms') :
    ms'.map (·.2) = (ms.map (·.2)).map (·.map (· + L.distance)) := by
  induction h with
  | nil => rfl
  | cons first _ ih => simp only [List.map_cons, ih, first.comma]

theorem SameMember.roles {ms ms' : List (Node × Option Nat)}
    (h : List.Forall₂ (SameMember L) ms ms') : ∀ m ∈ ms, m.1.role = .properties := by
  induction h with
  | nil => exact nofun
  | cons first _ ih => exact List.forall_mem_cons.2 ⟨first.role, ih⟩

/-- The same members, of which only the last may have no comma behind it. -/
structure SameMembers (L : Placement) (ms ms' : List (Node × Option Nat)) : Prop where
  each : List.Forall₂ (SameMember L) ms ms'
  commas : none ∉ (ms.map (·.2)).dropLast

theorem objectMembers_alike : L.Alike objectMembers objectMembers (SameMembers L) := by
  -- the list goes on only behind a comma
  refine .loop (R := fun ms ms' => List.Forall₂ (SameMember L) ms ms' ∧ none ∉ ms.map (·.2))
    (fun ms ms' hms => .andThen .kind fun k => ?_) ⟨.nil, List.not_mem_nil⟩
  obtain ⟨same, commas⟩ := hms
  split
  · refine .pure (.inr ⟨List.rel_reverse same, fun mem => commas ?_⟩)
    rw [List.map_reverse] at mem
    exact List.mem_reverse.1 (List.dropLast_subset _ mem)
  refine .bind objectMember_alike fun member member' hmember => .bind .token fun t t' ht => ?_
  subst ht
  have node := hmember.inRole .properties
  refine .andThen (.accept _) fun found => ?_
  split
  · refine .pure (.inl ⟨.cons ⟨node, rfl, congrArg some (Token.moved_stop t)⟩ same, ?_⟩)
    simpa using commas
  · refine .pure (.inr ⟨List.rel_reverse (.cons ⟨node, rfl, rfl⟩ same), ?_⟩)
    simpa using commas

/-- A literal of such members keeps an offset for each of them. -/
theorem SameMembers.separated {members members' : List (Node × Option Nat)} {n : Node}
    (h : SameMembers L members members') (detail : n.detail = .separators (members.map (·.2)))
    (children : n.children = members.map (·.1)) : n.Separated := by
  have all : n.childrenIn .properties = n.children := by
    rw [Node.childrenIn, List.filter_eq_self, children]
    intro m mem
    obtain ⟨member, inner, rfl⟩ := List.mem_map.1 mem
    exact beq_iff_eq.2 (SameMember.roles h.each member inner)
  exact ⟨_, detail, by rw [all, children, List.length_map, List.length_map], h.commas⟩

theorem objectLiteral_alike : L.Alike objectLiteral objectLiteral L.SameNode := by
  refine .bind .here fun start start' hstart => .andThen .remaining fun text => ?_
  refine .andThen (.require _) fun _ => .bind objectMembers_alike fun members members' same => ?_
  refine .andThen (.require _) fun _ => .making fun stop => .pure ?_
  have length : (⟨start', stop + L.distance⟩ : Span).length = (⟨start, stop⟩ : Span).length := by
    rw [hstart]
    exact Span.moved_length ⟨start, stop⟩
  dsimp only
  rw [length]
  refine .ofParts hstart (SameMember.nodes same.each) .nil ?_ Kind.noConfusion rfl Kind.noConfusion
    (fun n kind _ _ _ x hx => ?_) fun _ n => same.separated
  · exact congrArg Detail.separators (SameMember.commas same.each)
  · rw [Node.ownNames, kind] at hx
    cases hx

/-! ## What begins with its own token -/

/-- Neither a comma nor an assignment has a strength. -/
theorem strength?_eq_none {k : Kind} (h : k = .comma ∨ k.isAssignment = true) :
    k.strength? = none := by
  rcases h with rfl | isAssignment
  · rfl
  · cases k <;> first | rfl | exact nomatch isAssignment

/-- Two operands joined by an operator without a strength. -/
theorem loose_made {mark mark' : Mark} {left left' right right' : Node} {stop : Nat}
    (place : L.SamePlace start start') (hmark : L.SameMark mark mark')
    (hleft : L.SameNode left left') (hright : L.SameNode right right')
    (loose : mark.kind.strength? = none) :
    L.SameNode
      { kind := .binaryExpression, span := ⟨start, stop⟩, marks := [mark]
        children := [left.inRole .left, right.inRole .right] }
      { kind := .binaryExpression, span := ⟨start', stop + L.distance⟩, marks := [mark']
        children := [left'.inRole .left, right'.inRole .right] } := by
  refine .ofParts place (.cons (hleft.inRole _) (.cons (hright.inRole _) .nil)) (.cons hmark .nil) rfl
    (fun _ => List.forall_mem_singleton.2 loose) rfl Kind.noConfusion (fun n kind _ _ _ x hx => ?_)
    Kind.noConfusion
  rw [Node.ownNames, kind] at hx
  cases hx

theorem expression_alike : L.Alike expression expression L.SameNode := by
  refine .bind .here fun start start' hstart => .bind (.need rfl) fun first first' hfirst => ?_
  refine .loop (R := L.SameNode) (fun left left' hleft => ?_) hfirst
  refine .keepWhen (fun mark mark' isComma hmark => ?_) (.pure (.inr hleft))
  refine .bind (.need rfl) fun right right' hright => .making fun stop => .pure (.inl ?_)
  exact loose_made hstart hmark hleft hright (strength?_eq_none (.inl isComma))

theorem templateSpans_alike : L.Alike templateSpans templateSpans L.SameNodes := by
  refine .loop (R := L.SameNodes) (fun spans spans' hspans => ?_) .nil
  refine .bind .here fun start start' hstart => .bind expression_alike fun value value' hvalue => ?_
  refine .andThen .kind fun k => ?_
  split
  · refine .andThen (.rescan _) fun _ => .bind .token fun t t' ht => .andThen .advance fun _ => ?_
    subst ht
    refine .making fun stop => ?_
    have span : L.SameNode
        { kind := .templateSpan, span := ⟨start, stop⟩, detail := .templateSpan t.value
          children := [value.inRole .expression] }
        { kind := .templateSpan, span := ⟨start', stop + L.distance⟩
          detail := .templateSpan (t.moved L.distance).value
          children := [value'.inRole .expression] } :=
      .made hstart (.cons (hvalue.inRole _) .nil) rfl rfl rfl
    dsimp only
    split
    · next middle =>
      rw [if_pos (by exact middle)]
      exact .pure (.inl (.cons span hspans))
    · next tail =>
      rw [if_neg (by exact tail)]
      exact .pure (.inr (List.rel_reverse (.cons span hspans)))
  · exact .andThen .note fun _ => .pure (.inr (List.rel_reverse hspans))

theorem templateExpression_alike : L.Alike templateExpression templateExpression L.SameNode := by
  refine .bind .token fun t t' ht => .andThen .advance fun _ => ?_
  subst ht
  refine .bind templateSpans_alike fun spans spans' same => .making fun stop => .pure ?_
  exact .made rfl (SameNodes.inRole same _) rfl rfl rfl

theorem spreadable_alike : L.Alike spreadable spreadable L.SameNode := by
  refine .bind .here fun start start' hstart => .andThen (.accept _) fun found => ?_
  split
  · exact .bind (.need rfl) fun value value' hvalue => .node hstart (.cons (hvalue.inRole _) .nil) rfl
  · exact .need rfl

theorem arrayLiteral_alike : L.Alike arrayLiteral arrayLiteral L.SameNode := by
  refine .bind .here fun start start' hstart => .andThen (.require _) fun _ => ?_
  refine .bind (elementsWithHoles_alike spreadable_alike rfl) fun elements elements' same => ?_
  exact .andThen (.require _) fun _ => .node hstart (SameNodes.inRole same _) rfl

/-- A literal that may have to be read again is none that has a name. -/
theorem isNeutral_rescan {s s' : State} (like : L.Like s s') (neutral : s.token.kind.isNeutral = true)
    (way : Rescan) : (s.toReading.rescan way).token.kind.isNeutral = true := by
  obtain same | reread := like.exact.sound.scanner.rescan_kind way
  · exact (congrArg Kind.isNeutral same).trans neutral
  · exact Kind.isNeutral_of_isReread reread

theorem primary_alike : L.Alike primary primary L.SameNode := by
  refine fun s s' like => .here like (.kind like ?_)
  have hstart : L.SamePlace s.here (s.here + L.distance) := rfl
  split
  any_goals
    rename_i here
    have neutral : s.token.kind.isNeutral = true := here ▸ rfl
    first
    | exact .rescan (sourceLiteral_alike (like.rescan .slash) (isNeutral_rescan like neutral .slash))
    | exact sourceLiteral_alike like neutral
    | exact plainTemplate_alike like neutral
    | exact .tokenNode like neutral
  · exact stringLiteral_alike like
  · exact templateExpression_alike like
  · refine Alike.andThen .advance (fun _ => .bind expression_alike fun value value' hvalue => ?_) like
    exact .andThen (.require _) fun _ => .node hstart (.cons (hvalue.inRole _) .nil) rfl
  · exact arrayLiteral_alike like
  · exact objectLiteral_alike like
  · exact functionExpression_alike _ like
  · refine .nextOnLineIs like fun isFunction => ?_
    split
    · exact Alike.andThen .advance (fun _ => functionExpression_alike _) like
    split
    · next isName => exact identifierHere_alike like (Kind.isPropertyWord_of_isName isName)
    · exact Alike.andThen .note (fun _ => .missing rfl Kind.noConfusion) like

/-! ## Chains of accesses and calls -/

theorem argumentList_alike : L.Alike argumentList argumentList L.SameNodes := by
  refine .andThen (.require _) fun _ => ?_
  refine .bind (.commaList _ spreadable_alike) fun arguments arguments' same => ?_
  exact .andThen (.require _) fun _ => .pure (SameNodes.inRole same _)

theorem soundTypeArguments_alike (follow : Kind → Bool) :
    L.Alike (soundTypeArguments follow) (soundTypeArguments follow) (Option.Rel L.SameListed) := by
  refine .attempt (.bind .noteCount fun before before' hbefore => ?_)
  refine .bind typeArguments_alike fun arguments arguments' same => ?_
  refine .bind .noteCount fun now now' hnow => .andThen .kind fun k => ?_
  rw [counts_eq hbefore hnow]
  split
  · exact .pure (.some ⟨rfl, same⟩)
  · exact .pure .none

section Links

variable {target target' : Node} (htarget : L.SameNode target target')
include htarget

theorem target_start : L.SamePlace target.span.start target'.span.start := by
  rw [htarget.span_eq]
  rfl

section Marked

variable {questionDot questionDot' : List Mark} (marks : L.SameMarks questionDot questionDot')
include marks

theorem propertyLink_alike :
    L.Alike (propertyLink target questionDot) (propertyLink target' questionDot') L.SameNode := by
  refine .bind propertyWord_alike fun name name' hname => .making fun stop => .pure ?_
  rw [linkFlags, linkFlags, isEmpty_eq marks]
  exact .marked (target_start htarget) (.cons (htarget.inRole _) (.cons (hname.inRole _) .nil))
    marks rfl rfl rfl

theorem elementLink_alike :
    L.Alike (elementLink target questionDot) (elementLink target' questionDot') L.SameNode := by
  refine .andThen (.require _) fun _ => .bind expression_alike fun index index' hindex => ?_
  refine .andThen (.require _) fun _ => .making fun stop => .pure ?_
  rw [linkFlags, linkFlags, isEmpty_eq marks]
  exact .marked (target_start htarget) (.cons (htarget.inRole _) (.cons (hindex.inRole _) .nil))
    marks rfl rfl rfl

theorem callLink_alike {typed typed' : List Role × List Node} (htyped : L.SameListed typed typed') :
    L.Alike (callLink target questionDot typed) (callLink target' questionDot' typed')
      L.SameNode := by
  refine .bind argumentList_alike fun arguments arguments' same => .making fun stop => .pure ?_
  rw [linkFlags, linkFlags, isEmpty_eq marks, htyped.lists]
  exact .marked (target_start htarget) (.cons (htarget.inRole _) (htyped.nodes.append same))
    marks rfl rfl rfl

end Marked

theorem optionalLink_alike (allowCalls : Bool) :
    L.Alike (optionalLink target allowCalls) (optionalLink target' allowCalls) L.SameNode := by
  refine .bind (.keep _) fun mark mark' hmark => .andThen .kind fun next => ?_
  have marks : L.SameMarks [mark] [mark'] := .cons hmark .nil
  split
  · exact .bind optionalTypeArguments_alike fun typed typed' same => callLink_alike htarget marks same
  split
  · exact elementLink_alike htarget marks
  · exact propertyLink_alike htarget marks

end Links

theorem chain_alike (allowCalls : Bool) {first first' : Node} (hfirst : L.SameNode first first') :
    L.Alike (chain allowCalls first) (chain allowCalls first') L.SameNode := by
  refine .loop (R := L.SameNode) (fun target target' htarget => .andThen .kind fun next => ?_) hfirst
  split
  · refine .andThen .advance fun _ => ?_
    exact .bind (propertyLink_alike htarget .nil) fun n n' same => .pure (.inl same)
  · exact .bind (optionalLink_alike htarget _) fun n n' same => .pure (.inl same)
  · exact .bind (elementLink_alike htarget .nil) fun n n' same => .pure (.inl same)
  · refine .andThen .afterLineBreak fun isAfter => ?_
    split
    · exact .pure (.inr htarget)
    · refine .andThen .advance fun _ => .bind (.node (target_start htarget) ?_ rfl) fun n n' same => ?_
      · exact .cons (htarget.inRole _) .nil
      · exact .pure (.inl same)
  · split
    · exact .bind (callLink_alike htarget .nil ⟨rfl, .nil⟩) fun n n' same => .pure (.inl same)
    · exact .pure (.inr htarget)
  · split
    · refine .bind (soundTypeArguments_alike _) fun typed typed' same => ?_
      cases same with
      | none => exact .pure (.inr htarget)
      | some htyped =>
        exact .bind (callLink_alike htarget .nil htyped) fun n n' same => .pure (.inl same)
    · exact .pure (.inr htarget)
  · exact .pure (.inr htarget)

theorem chainHead_alike : L.Alike chainHead chainHead L.SameNode := by
  refine fun s s' like => .kind like ?_
  split
  · next isNew => exact fun _ _ knots _ _ hrun => knots.goals like (fun _ => isNew) hrun
  · exact primary_alike like

theorem constructionTypes_alike : L.Alike constructionTypes constructionTypes L.SameListed := by
  refine .andThen .kind fun k => ?_
  split
  · refine .bind (soundTypeArguments_alike _) fun typed typed' same => .pure ?_
    cases same with
    | none => exact ⟨rfl, .nil⟩
    | some htyped => exact htyped
  · exact .pure ⟨rfl, .nil⟩

theorem optionalArguments_alike : L.Alike optionalArguments optionalArguments L.SameListed := by
  refine .andThen .kind fun k => ?_
  split
  · exact .bind argumentList_alike fun arguments arguments' same => .pure ⟨rfl, same⟩
  · exact .pure ⟨rfl, .nil⟩

theorem construction_alike {s s' : State} (like : L.Like s s') (isNew : s.token.kind = .newKeyword) :
    L.AlikeAt s s' construction construction fun n _ n' => L.SameNode n n' := by
  have hstart : L.SamePlace s.here (s.here + L.distance) := rfl
  refine .here like ((AlikeAt.tokenNode like (isNew ▸ rfl)).bind ?_)
  refine fun word word' t t' hword like => (?_ : L.Alike _ _ L.SameNode) like
  refine .andThen (.accept _) fun isMeta => ?_
  split
  · refine .bind propertyWord_alike fun name name' hname => .node hstart ?_ rfl
    exact .cons (hword.inRole _) (.cons (hname.inRole _) .nil)
  refine .bind chainHead_alike fun head head' hhead => ?_
  refine .bind (chain_alike _ hhead) fun callee callee' hcallee => ?_
  refine .bind constructionTypes_alike fun typed typed' htyped => ?_
  refine .bind optionalArguments_alike fun arguments arguments' hargs => .making fun stop => .pure ?_
  rw [htyped.lists, hargs.lists]
  exact .made hstart (.cons (hcallee.inRole _) (htyped.nodes.append hargs.nodes)) rfl rfl rfl

theorem leftHandSide_alike : L.Alike leftHandSide leftHandSide L.SameNode :=
  .bind chainHead_alike fun _ _ same => chain_alike _ same

/-! ## Operators -/

theorem prefixed_alike (place : L.SamePlace start start') :
    L.Alike (prefixed start) (prefixed start') L.SameNode := by
  refine .andThen .kind fun operator => .andThen .advance fun _ => ?_
  refine .bind (.need rfl) fun operand operand' hoperand => .making fun stop => .pure ?_
  exact .made place (.cons (hoperand.inRole _) .nil) rfl rfl rfl

theorem typeAssertion_alike (place : L.SamePlace start start') :
    L.Alike (typeAssertion start) (typeAssertion start') L.SameNode := by
  refine .andThen .advance fun _ => .bind (.need rfl) fun type type' htype => ?_
  refine .andThen (.require _) fun _ => .bind (.need rfl) fun value value' hvalue => .node place ?_ rfl
  exact .cons (htype.inRole _) (.cons (hvalue.inRole _) .nil)

theorem postfixed_alike (place : L.SamePlace start start') :
    L.Alike (postfixed start) (postfixed start') L.SameNode := by
  refine .bind leftHandSide_alike fun operand operand' hoperand => .andThen .kind fun operator => ?_
  refine .andThen .afterLineBreak fun isAfter => ?_
  split
  · refine .andThen .advance fun _ => .making fun stop => .pure ?_
    exact .made place (.cons (hoperand.inRole _) .nil) rfl rfl rfl
  · exact .pure hoperand

theorem unary_alike : L.Alike unary unary L.SameNode := by
  refine .bind .here fun start start' hstart => .andThen .kind fun k => ?_
  split
  any_goals exact prefixed_alike hstart
  · refine .andThen (.nextOnLineIs _) fun begins => ?_
    split
    · exact prefixed_alike hstart
    · exact postfixed_alike hstart
  · exact typeAssertion_alike hstart
  · exact postfixed_alike hstart

/-- The operands that are joined are grouped, and where they stand does not matter. -/
theorem binary_alike (least : Nat) : L.Alike (binary least) (binary least) L.SameNode := by
  intro s s' like
  have valid : s.Valid := ⟨L.text, like.exact.sound⟩
  refine .here like ?_
  refine (AlikeAt.need (Q := UnaryAt s) like (·.unary valid) rfl).bind fun first first' t t' h₁ like₁ => ?_
  refine AlikeAt.loop (P := fun left t left' =>
    L.SameNode left left' ∧ Joining least s.toReading left t.toReading)
    (fun left left' u u' h₂ like₂ => ?_) like₁ ⟨h₁.1, .of_isUnary h₁.2.kind h₁.2.spans⟩
  obtain ⟨hleft, joining⟩ := h₂
  have like₃ := like₂.rescan .greaterThan
  have before := joining.spans.run.trans (Step.rescan .greaterThan u.toReading).run
  refine .rescan (.kind like₃ ?_)
  dsimp only
  split
  · exact .pure like₃ (.inr hleft)
  next p strength =>
  have more : (u.toReading.rescan .greaterThan).token.kind ≠ .endOfFile := fun atEnd =>
    absurd ((congrArg Kind.strength? atEnd).symm.trans strength) nofun
  split
  · next binds =>
    split
    · refine .afterLineBreak like₃ ?_
      split
      · exact .pure like₃ (.inr hleft)
      refine .advance ((AlikeAt.need (Q := fun _ x =>
        Run (u.toReading.rescan .greaterThan).advance x.toReading) like₃.advance
        (fun knot _ _ hrun => (knot.leads hrun).run) rfl).bind fun type type' x x' h₄ like₄ => ?_)
      obtain ⟨htype, run⟩ := h₄
      have consumed := run.here_lt_lastEnd (before.valid valid) more
      refine .node like₄ (.pure like₄ (.inl ⟨.made rfl ?_ rfl rfl (by split <;> rfl),
        .of_isUnary ?_ (.plain ?_ rfl ?_)⟩))
      · exact .cons (hleft.inRole _) (.cons (htype.inRole _) .nil)
      · dsimp only
        split <;> rfl
      · exact (before.trans (Step.advance _).run).trans run
      · exact Nat.lt_of_le_of_lt before.here_le consumed
    · next isValue =>
      have validNext := (before.trans (Step.advance _).run).valid valid
      refine .keep like₃ ?_
      refine (AlikeAt.need (Q := fun right x => Joins p
        (u.toReading.rescan .greaterThan).advance right x.toReading) like₃.advance
        (·.joins validNext) rfl).bind fun right right' x x' h₄ like₄ => .node like₄ (.pure like₄ (.inl ?_))
      obtain ⟨hright, joins⟩ := h₄
      refine ⟨?_, joining.join valid strength binds joins⟩
      exact .joined hleft hright strength (joining.grouped like.exact strength isValue joins)
  · exact .pure like₃ (.inr hleft)

theorem conditional_alike : L.Alike conditional conditional L.SameNode := by
  refine .bind .here fun start start' hstart => .bind (.need rfl) fun condition condition' hcondition => ?_
  refine .andThen (.accept _) fun found => ?_
  split
  · refine .bind (.need rfl) fun whenTrue whenTrue' htrue => .andThen (.require _) fun _ => ?_
    refine .bind (.need rfl) fun whenFalse whenFalse' hfalse => .node hstart ?_ rfl
    exact .cons (hcondition.inRole _) (.cons (htrue.inRole _) (.cons (hfalse.inRole _) .nil))
  · exact .pure hcondition

theorem assignment_alike : L.Alike assignment assignment L.SameNode := by
  refine .bind arrowFunction_alike fun function function' same => ?_
  cases same with
  | some hfunction => exact .pure hfunction
  | none =>
    refine .bind .here fun start start' hstart => .bind conditional_alike fun left left' hleft => ?_
    refine .keepWhen (C := (·.isAssignment = true)) (fun mark mark' isAssignment hmark => ?_)
      (.pure hleft)
    refine .bind (.need rfl) fun right right' hright => .making fun stop => .pure ?_
    exact loose_made hstart hmark hleft hright (strength?_eq_none (.inr isAssignment))

end Parser
end FactorySync
