import FactorySync.Proofs.ImportForms
import FactorySync.Tree.Names
import Mathlib.Data.List.Forall2

/-!
# Where a text stands

A text is read in the same way wherever it stands. A `Placement` says how a reading of one text is
placed within the reading of a longer one: how far in it stands and what was noted in front of it.
`L.Alike p q R` says that whatever `p` does on the first reading `q` does on the other, where all
places are so much further on, and that their values are related by `R`. Nodes are related if the
one is the other one moved (`Placement.Node`).

The relation also carries what is wanted of all nodes that are made (`Placement.Good`): a property
that holds of a node if it holds of its children and the node by itself is as the grammar makes it
(`Node.Made`). So what holds of all nodes of a tree is read off the same lemmas.
-/

namespace FactorySync

open Parse

/-! ## Moving things on -/

def Span.moved (d : Nat) (s : Span) : Span := ⟨s.start + d, s.stop + d⟩

def Token.moved (d : Nat) (t : Token) : Token := { t with start := t.start + d }

def Mark.moved (d : Nat) (m : Mark) : Mark := { m with span := m.span.moved d }

def Diagnostic.moved (d : Nat) (x : Diagnostic) : Diagnostic :=
  { x with span := x.span.map (·.moved d) }

def Detail.moved (d : Nat) : Detail → Detail
  | .separators ends => .separators (ends.map (·.map (· + d)))
  | detail => detail

mutual

/-- The node with all that is in it so much further on. -/
def Node.moved (d : Nat) : Node → Node
  | { role, kind, span, flags, modifiers, detail, marks, lists, children } =>
    { role, kind, flags, modifiers, lists
      span := span.moved d
      detail := detail.moved d
      marks := marks.map (·.moved d)
      children := Node.movedAll d children }

def Node.movedAll (d : Nat) : List Node → List Node
  | [] => []
  | n :: ns => n.moved d :: Node.movedAll d ns

end

section Moved

variable {d : Nat}

theorem Node.movedAll_eq (ns : List Node) : Node.movedAll d ns = ns.map (·.moved d) := by
  induction ns with
  | nil => rfl
  | cons n ns ih => rw [movedAll, ih, List.map_cons]

theorem Node.moved_mk (role : Role) (kind : Kind) (span : Span) (flags : NodeFlags)
    (modifiers : Modifiers) (detail : Detail) (marks : List Mark) (lists : List Role)
    (children : List Node) :
    Node.moved d { role, kind, span, flags, modifiers, detail, marks, lists, children } =
      { role, kind, flags, modifiers, lists
        span := span.moved d
        detail := detail.moved d
        marks := marks.map (·.moved d)
        children := children.map (·.moved d) } := by
  rw [Node.moved, Node.movedAll_eq]

@[simp] theorem Node.moved_kind (n : Node) : (n.moved d).kind = n.kind := by cases n; rfl

@[simp] theorem Node.moved_span (n : Node) : (n.moved d).span = n.span.moved d := by cases n; rfl

@[simp] theorem Node.moved_inRole (n : Node) (role : Role) :
    (n.inRole role).moved d = (n.moved d).inRole role := by cases n; rfl

@[simp] theorem Span.moved_start (s : Span) : (s.moved d).start = s.start + d := rfl

@[simp] theorem Span.moved_length (s : Span) : (s.moved d).length = s.length := by
  rw [Span.length, Span.moved, Nat.add_sub_add_right]
  rfl

@[simp] theorem Token.moved_stop (t : Token) : (t.moved d).stop = t.stop + d :=
  Nat.add_right_comm _ _ _

@[simp] theorem Token.moved_span (t : Token) : (t.moved d).span = t.span.moved d := by
  rw [Token.span, Token.moved_stop]
  rfl

end Moved

/-! ## Placed readings -/

/-- The names that a node mentions that is a name itself or exports names. -/
def Node.ownNames (n : Node) : List String :=
  match n.kind with
  | .identifier | .qualifiedName => [n.firstName]
  | .namedExports => (n.childrenIn .elements).map fun item => item.specifiedName?.getD ""
  | _ => []

/-- Kinds of nodes that neither join operands nor mention names by themselves nor import any, and
keep no offsets. -/
def Kind.isNeutral : Kind → Bool
  | .binaryExpression | .importDeclaration | .identifier | .qualifiedName | .namedExports
  | .objectLiteralExpression => false
  | _ => true

/-- The name that is a node's own. -/
def Detail.name? : Detail → Option String
  | .identifier name => some name
  | _ => Option.none

theorem Kind.isNeutral_of_isTypeWord {k : Kind} (h : k.isTypeWord = true) : k.isNeutral = true := by
  unfold isTypeWord at h
  split at h <;> first | rfl | cases h

theorem Kind.ne_literal_of_isNeutral {k : Kind} (h : k.isNeutral = true) :
    k ≠ .objectLiteralExpression := by
  rintro rfl
  cases h

theorem Kind.isNeutral_of_isReread {k : Kind} (h : k.isReread = true) : k.isNeutral = true := by
  unfold isReread at h
  split at h <;> first | rfl | cases h

/-- An object literal keeps an offset for each of its members, and only the last of them may have no
comma behind it. -/
def Node.Separated (n : Node) : Prop :=
  ∃ ends, n.detail = .separators ends ∧ ends.length = (n.childrenIn .properties).length ∧
    none ∉ ends.dropLast

/-- What is known of a node by itself when it is made. -/
structure Node.Made (text : List Char) (n : Node) : Prop where
  /-- Operands that are joined are grouped well. -/
  grouped : ∀ p, n.strength? = some p → ∃ op left right, n.Grouped text op p left right
  named : n.flags.missing = true ∨ ∀ x, n.identifierName? = some x → IsWord x
  mentions : n.Complete → ∀ x ∈ n.ownNames, IsWord x
  imports : n.kind = .importDeclaration → n.Complete → (Import.ofNode n).Proper
  separated : n.kind = .objectLiteralExpression → n.Separated

/-- How the reading of a text is placed within the reading of another one. -/
structure Placement where
  text : List Char
  /-- How far into the other text it stands. -/
  distance : Nat
  /-- What the parser noted in front of it, newest first. -/
  notes : List Diagnostic
  /-- What the scanner noted in front of it. -/
  diagnostics : Diagnostics
  earlier : ∀ d ∈ notes.head?, ∃ span, d.span = some span ∧ span.start < distance
  /-- What is wanted of nodes. -/
  Good : Node → Prop
  make : ∀ {n : Node}, n.Made text → (∀ c ∈ n.children, Good c) → Good n
  inRole : ∀ {n : Node} {role : Role}, Good n → Good (n.inRole role)

namespace Placement

variable (L : Placement)

def scanner (s : Scanner) : Scanner :=
  { s with
    token := s.token.moved L.distance
    diagnostics := L.diagnostics ++ s.diagnostics.map (·.moved L.distance) }

def reading (r : Reading) : Reading where
  scanner := L.scanner r.scanner
  lastEnd := r.lastEnd + L.distance
  notes := r.notes.map (·.moved L.distance) ++ L.notes

variable {L} {s : Scanner} {r : Reading}

theorem scanner_rest : (L.scanner s).rest = s.rest := rfl

theorem scanner_stop : (L.scanner s).token.stop = s.token.stop + L.distance := Token.moved_stop _

theorem scanner_note (span : Span) (problem : Option Problem) :
    (L.scanner s).note (span.moved L.distance) problem = L.scanner (s.note span problem) := by
  cases problem with
  | none => rfl
  | some p =>
    simp only [Scanner.note, scanner, List.map_append, List.append_assoc]
    rfl

theorem scanner_take (start : Nat) (flags : TokenFlags) (l : Lexeme) (cs : List Char) :
    (L.scanner s).take (start + L.distance) flags l cs = L.scanner (s.take start flags l cs) := by
  simp only [Scanner.take]
  rw [← scanner_note, ← Token.moved_span]
  rfl

/-- Only in front of all tokens does it matter whether the text begins here. -/
theorem trivia_moved {text : List Char} (h : s.Sound text) (d : Nat) :
    Trivia.ofChars (s.token.stop + d == 0) s.rest = Trivia.ofChars (s.token.stop == 0) s.rest := by
  by_cases atEnd : s.token.kind = .endOfFile
  · rw [(h.nothing_left atEnd).2]
    rfl
  · have := h.length_pos atEnd
    rw [beq_false_of_ne, beq_false_of_ne] <;> rw [Token.stop] <;> omega

/-- A comment that is not closed lies in front of the place where it ends. -/
theorem note_comment (t : Trivia) (start n : Nat) :
    (L.scanner s).note
        ⟨start + byteLength (s.rest.take t.size) + L.distance -
          byteLength ((s.rest.take t.size).drop n),
          start + byteLength (s.rest.take t.size) + L.distance⟩ (some .unterminatedComment) =
      L.scanner (s.note
        ⟨start + byteLength (s.rest.take t.size) - byteLength ((s.rest.take t.size).drop n),
          start + byteLength (s.rest.take t.size)⟩ (some .unterminatedComment)) := by
  rw [← scanner_note, Span.moved]
  have whole := byteLength_append ((s.rest.take t.size).take n) ((s.rest.take t.size).drop n)
  rw [List.take_append_drop] at whole
  dsimp only
  congr 2
  omega

/-- Once the trivia in front of the next token is the same the token is. -/
theorem next_of_trivia (h : Trivia.ofChars (s.token.stop + L.distance == 0) s.rest =
    Trivia.ofChars (s.token.stop == 0) s.rest) : (L.scanner s).next = L.scanner s.next := by
  unfold Scanner.next
  dsimp only [scanner_rest]
  rw [scanner_stop, h, Nat.add_right_comm]
  cases (Trivia.ofChars (s.token.stop == 0) s.rest).unclosed with
  | none => split <;> exact scanner_take ..
  | some length =>
    dsimp only
    rw [note_comment]
    split <;> exact scanner_take ..

theorem scanner_next {text : List Char} (h : s.Sound text) :
    (L.scanner s).next = L.scanner s.next := next_of_trivia (trivia_moved h L.distance)

theorem scanner_retake (l : Lexeme) : (L.scanner s).retake l = L.scanner (s.retake l) :=
  scanner_take ..

theorem retake_if {c : Prop} [Decidable c] (l : Lexeme) :
    (if c then (L.scanner s).retake l else L.scanner s) =
      L.scanner (if c then s.retake l else s) := by
  split
  · exact scanner_retake l
  · rfl

theorem scanner_rescan (way : Rescan) : (L.scanner s).rescan way = L.scanner (s.rescan way) := by
  cases way with
  | greaterThan =>
    exact retake_if { kind := (Lexeme.afterGreaterThan s.rest).1
                      size := (Lexeme.afterGreaterThan s.rest).2 + 1 }
  | slash => exact retake_if (.regularExpression s.fromToken)
  | template => exact retake_if (.template .templateTail .templateMiddle s.fromToken.tail)

/-! ## Moves on placed readings -/

theorem reading_advance {text : List Char} (h : r.scanner.Sound text) :
    (L.reading r).advance = L.reading r.advance := by
  rw [Reading.advance, Reading.advance, reading, reading, scanner_next h]
  congr 1
  exact Token.moved_stop _

theorem reading_rescan (way : Rescan) : (L.reading r).rescan way = L.reading (r.rescan way) := by
  rw [Reading.rescan, Reading.rescan, reading, reading, scanner_rescan]

/-- Notes are made at the same places as before. -/
theorem noted_here_iff : ((L.reading r).notes.head?.bind (·.span)).map (·.start) =
    some (L.reading r).here ↔ (r.notes.head?.bind (·.span)).map (·.start) = some r.here := by
  show _ = some (r.here + L.distance) ↔ _
  cases hnotes : r.notes with
  | nil =>
    have none : (L.reading r).notes = L.notes := by rw [reading, hnotes]; rfl
    rw [none]
    refine ⟨fun here => ?_, nofun⟩
    cases hfirst : L.notes.head? with
    | none => simp [hfirst] at here
    | some d =>
      obtain ⟨span, hspan, before⟩ := L.earlier d hfirst
      simp only [hfirst, Option.bind_some, hspan, Option.map_some, Option.some.injEq] at here
      omega
  | cons d ds =>
    have first : (L.reading r).notes.head? = some (d.moved L.distance) := by rw [reading, hnotes]; rfl
    rw [first]
    cases hspan : d.span with
    | none => simp [Diagnostic.moved, hspan]
    | some span => simp [Diagnostic.moved, hspan]

theorem reading_note (p : Problem) : (L.reading r).note p = L.reading (r.note p) := by
  by_cases here : (r.notes.head?.bind (·.span)).map (·.start) = some r.here
  · rw [Reading.note, Reading.note, if_pos here, if_pos (noted_here_iff.2 here)]
  · rw [Reading.note, Reading.note, if_neg here, if_neg (mt noted_here_iff.1 here)]
    simp only [reading, List.map_cons, List.cons_append]
    congr 2
    exact congrArg (Diagnostic.ofProblem r.scanner.file · p) (Token.moved_span r.token)

/-! ## Related values -/

variable (L)

/-- The same place in both texts. -/
def SamePlace (a b : Nat) : Prop := b = a + L.distance

def SameMark (m m' : Mark) : Prop := m' = m.moved L.distance

/-- A node as it should be, and the same node further on. -/
structure SameNode (n n' : Node) : Prop where
  good : L.Good n
  moved : n' = n.moved L.distance

abbrev SameMarks : List Mark → List Mark → Prop := List.Forall₂ L.SameMark

abbrev SameNodes : List Node → List Node → Prop := List.Forall₂ L.SameNode

/-- The same optional lists with related nodes in them. -/
structure SameListed (a b : List Role × List Node) : Prop where
  lists : b.1 = a.1
  nodes : L.SameNodes a.2 b.2

variable {L}

section Values

variable {n n' : Node} {ns ns' ms ms' : List Node} {role : Role}

theorem SameNode.inRole (h : L.SameNode n n') (role : Role) :
    L.SameNode (n.inRole role) (n'.inRole role) where
  good := L.inRole h.good
  moved := by rw [h.moved, Node.moved_inRole]

theorem SameNode.kind_eq (h : L.SameNode n n') : n'.kind = n.kind := by
  rw [h.moved, Node.moved_kind]

theorem SameNode.span_eq (h : L.SameNode n n') : n'.span = n.span.moved L.distance := by
  rw [h.moved, Node.moved_span]

theorem SameNodes.eq_map (h : L.SameNodes ns ns') : ns' = ns.map (·.moved L.distance) := by
  induction h with
  | nil => rfl
  | cons first _ ih => rw [List.map_cons, ih, first.moved]

theorem SameNodes.good (h : L.SameNodes ns ns') : ∀ n ∈ ns, L.Good n := by
  induction h with
  | nil => exact nofun
  | cons first _ ih => exact List.forall_mem_cons.2 ⟨first.good, ih⟩

theorem SameNodes.inRole (h : L.SameNodes ns ns') (role : Role) :
    L.SameNodes (ns.map (·.inRole role)) (ns'.map (·.inRole role)) := by
  induction h with
  | nil => exact .nil
  | cons first _ ih => exact .cons (first.inRole role) ih

theorem SameNodes.append (h : L.SameNodes ns ns') (h' : L.SameNodes ms ms') :
    L.SameNodes (ns ++ ms) (ns' ++ ms') := List.rel_append h h'

theorem SameMarks.eq_map {ms ms' : List Mark} (h : L.SameMarks ms ms') :
    ms' = ms.map (·.moved L.distance) := by
  induction h with
  | nil => rfl
  | cons first _ ih => rw [List.map_cons, ih, first]

theorem isEmpty_eq {α β : Type} {R : α → β → Prop} {as : List α} {bs : List β}
    (h : List.Forall₂ R as bs) : bs.isEmpty = as.isEmpty := by
  cases h <;> rfl

/-- A node that has no name of its own is no name. -/
theorem identifierName?_ne {detail : Detail} {x : String} (nameless : detail.name? = none)
    (named : n.detail = detail) : n.identifierName? ≠ some x := by
  subst named
  intro own
  unfold Node.identifierName? at own
  cases same : n.detail <;> rw [same] at own nameless <;> cases own
  cases nameless

theorem ownNames_of_isNeutral {n : Node} (neutral : n.kind.isNeutral = true) : n.ownNames = [] := by
  unfold Node.ownNames
  split <;> simp_all [Kind.isNeutral]

/-- A node of related parts that joins no operands by an operator with a strength, has no name of its
own and is no import, and of which the names that it mentions are names and the offsets fit. -/
theorem SameNode.ofParts {kind : Kind} {start start' stop : Nat} {flags : NodeFlags}
    {modifiers : Modifiers} {detail detail' : Detail} {marks marks' : List Mark} {lists : List Role}
    (from_ : L.SamePlace start start') (children : L.SameNodes ns ns')
    (sameMarks : L.SameMarks marks marks') (detail_eq : detail' = detail.moved L.distance)
    (joins : kind = .binaryExpression → ∀ m ∈ marks, m.kind.strength? = none)
    (nameless : detail.name? = none) (noImport : kind ≠ .importDeclaration)
    (mentions : ∀ n : Node, n.kind = kind → n.detail = detail → n.children = ns → n.Complete →
      ∀ x ∈ n.ownNames, IsWord x)
    (separated : kind = .objectLiteralExpression →
      ∀ n : Node, n.detail = detail → n.children = ns → n.Separated) :
    L.SameNode
      { role, kind, span := ⟨start, stop⟩, flags, modifiers, detail, marks, lists, children := ns }
      { role, kind, span := ⟨start', stop + L.distance⟩, flags, modifiers, detail := detail',
        marks := marks', lists, children := ns' } where
  good := by
    refine L.make ⟨fun p strength => ?_, .inr fun x hx => ?_, mentions _ rfl rfl rfl,
      fun isImport => absurd isImport noImport, fun isLiteral => separated isLiteral _ rfl rfl⟩
      (SameNodes.good children)
    · obtain ⟨k, hk, hp⟩ := Option.bind_eq_some_iff.1 strength
      simp only [Node.operator?] at hk
      split at hk
      · next binary =>
        obtain ⟨m, hm, rfl⟩ := Option.map_eq_some_iff.1 hk
        rw [joins binary m (List.mem_of_head? hm)] at hp
        cases hp
      · cases hk
    · exact absurd hx (identifierName?_ne nameless rfl)
  moved := by
    rw [Node.moved_mk, detail_eq, SameMarks.eq_map sameMarks, SameNodes.eq_map children, from_]
    rfl

/-- A node of related parts of a neutral kind. -/
theorem SameNode.marked {kind : Kind} {start start' stop : Nat} {flags : NodeFlags}
    {modifiers : Modifiers} {detail detail' : Detail} {marks marks' : List Mark} {lists : List Role}
    (from_ : L.SamePlace start start') (children : L.SameNodes ns ns')
    (sameMarks : L.SameMarks marks marks') (detail_eq : detail' = detail.moved L.distance)
    (nameless : detail.name? = none)
    (neutral : kind.isNeutral = true) :
    L.SameNode
      { role, kind, span := ⟨start, stop⟩, flags, modifiers, detail, marks, lists, children := ns }
      { role, kind, span := ⟨start', stop + L.distance⟩, flags, modifiers, detail := detail',
        marks := marks', lists, children := ns' } := by
  refine .ofParts from_ children sameMarks detail_eq ?_ nameless ?_ (fun n kind _ _ _ x hx => ?_) ?_
  · rintro rfl
    cases neutral
  · rintro rfl
    cases neutral
  · rw [ownNames_of_isNeutral (kind ▸ neutral)] at hx
    cases hx
  · rintro rfl
    cases neutral

/-- A node of related parts without marks. -/
theorem SameNode.made {kind : Kind} {start start' stop : Nat} {flags : NodeFlags}
    {modifiers : Modifiers} {detail detail' : Detail} {lists : List Role}
    (from_ : L.SamePlace start start') (children : L.SameNodes ns ns')
    (detail_eq : detail' = detail.moved L.distance)
    (nameless : detail.name? = none)
    (neutral : kind.isNeutral = true) :
    L.SameNode
      { role, kind, span := ⟨start, stop⟩, flags, modifiers, detail, lists, children := ns }
      { role, kind, span := ⟨start', stop + L.distance⟩, flags, modifiers, detail := detail',
        lists, children := ns' } :=
  .marked from_ children .nil detail_eq nameless neutral

/-- A node without parts that is missing, a name or of a neutral kind. -/
theorem SameNode.leaf {kind : Kind} {span : Span} {flags : NodeFlags} {detail detail' : Detail}
    (detail_eq : detail' = detail.moved L.distance)
    (sort : flags.missing = true ∨ (∃ x, detail = .identifier x ∧ IsWord x) ∨
      kind.isNeutral = true ∧ detail.name? = none)
    (noLiteral : kind ≠ .objectLiteralExpression) :
    L.SameNode { role, kind, span, flags, detail }
      { role, kind, span := span.moved L.distance, flags, detail := detail' } where
  good := by
    have joins (p : Nat) :
        Node.strength? { role, kind, span, flags, detail } ≠ some p := fun strength => by
      obtain ⟨k, hk, -⟩ := Option.bind_eq_some_iff.1 strength
      simp only [Node.operator?] at hk
      split at hk <;> cases hk
    refine L.make ⟨fun p strength => absurd strength (joins p), ?_, fun complete x hx => ?_,
      fun _ _ => ?_, fun isLiteral => absurd isLiteral noLiteral⟩ (by simp)
    · refine sort.imp id fun sort x hx => ?_
      obtain ⟨y, rfl, word⟩ | ⟨-, nameless⟩ := sort
      · exact Option.some_inj.1 hx ▸ word
      · exact absurd hx (identifierName?_ne nameless rfl)
    · obtain missing | ⟨y, rfl, word⟩ | ⟨neutral, -⟩ := sort
      · exact Bool.noConfusion (missing.symm.trans complete.present)
      · unfold Node.ownNames at hx
        split at hx
        · exact List.mem_singleton.1 hx ▸ word
        · exact List.mem_singleton.1 hx ▸ word
        · cases hx
        · cases hx
      · rw [ownNames_of_isNeutral neutral] at hx
        cases hx
    · have bare : Import.ofNode { role, kind, span, flags, detail } = { specifier := "" } := rfl
      rw [bare]
      exact ⟨by simp, by simp, by simp, by simp, by simp⟩
  moved := by
    rw [Node.moved_mk, detail_eq]
    rfl

/-- Related operands that are joined well. -/
theorem SameNode.joined {left left' right right' : Node} {start stop p : Nat} {op : Mark}
    (hleft : L.SameNode left left') (hright : L.SameNode right right')
    (strength : op.kind.strength? = some p)
    (grouped : Node.Grouped L.text
      { kind := .binaryExpression, span := ⟨start, stop⟩, marks := [op]
        children := [left.inRole .left, right.inRole .right] }
      op p (left.inRole .left) (right.inRole .right)) :
    L.SameNode
      { kind := .binaryExpression, span := ⟨start, stop⟩, marks := [op]
        children := [left.inRole .left, right.inRole .right] }
      { kind := .binaryExpression, span := ⟨start + L.distance, stop + L.distance⟩
        marks := [op.moved L.distance]
        children := [left'.inRole .left, right'.inRole .right] } where
  good := by
    have operands : L.SameNodes [left.inRole .left, right.inRole .right]
        [left'.inRole .left, right'.inRole .right] := .cons (hleft.inRole _) (.cons (hright.inRole _) .nil)
    refine L.make ⟨fun q hq => ⟨op, left.inRole .left, right.inRole .right, ?_⟩, .inr nofun,
      fun _ => nofun, nofun, nofun⟩ operands.good
    obtain rfl := Option.some_inj.1 (strength.symm.trans hq)
    exact grouped
  moved := by
    rw [Node.moved_mk, (hleft.inRole _).moved, (hright.inRole _).moved]
    rfl

end Values

/-! ## Parsers on related readings -/

variable (L)

/-- The one state is placed within the other one. Loops may go on longer there. -/
structure Like (s s' : State) : Prop where
  exact : s.Exact L.text
  reading : s'.toReading = L.reading s.toReading
  inExtends : s'.inExtends = s.inExtends
  depth : s'.depth = s.depth
  size_le : s.size ≤ s'.size

/-- What the first knot reads the other one reads on related states. Constructions are only read
where there is a `new`. -/
structure Knots (k k' : Knot) : Prop where
  operands : k.Operands
  leads : k'.Leads
  goals : ∀ {goal : Goal} {s s' : State} {n : Node} {t : State}, L.Like s s' →
    (goal = .construction → s.token.kind = .newKeyword) →
    k goal s = some (n, t) → ∃ n' t', k' goal s' = some (n', t') ∧ L.SameNode n n' ∧ L.Like t t'

/-- What one parser does in the first state the other one does in the second. -/
def AlikeAt {α β : Type} (s s' : State) (p : Parser α) (q : Parser β) (R : α → State → β → Prop) :
    Prop :=
  ∀ ⦃k k' : Knot⦄, L.Knots k k' → ∀ ⦃a : α⦄ ⦃t : State⦄, p.run k s = some (a, t) →
    ∃ b t', q.run k' s' = some (b, t') ∧ R a t b ∧ L.Like t t'

/-- What one parser does in a state the other one does wherever that is placed. -/
def Alike {α β : Type} (p : Parser α) (q : Parser β) (R : α → β → Prop) : Prop :=
  ∀ ⦃s s' : State⦄, L.Like s s' → L.AlikeAt s s' p q fun a _ b => R a b

end Placement
end FactorySync
