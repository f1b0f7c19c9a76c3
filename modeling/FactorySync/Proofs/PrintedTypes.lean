import FactorySync.Proofs.TypeTerms

/-!
# Printed types are read back

The productions for types take the words of a term one after the other, level by level
(`TypeTerm.Fits.reads`). In front of each member they look ahead for a function type; no term is
taken for one (`TypeTerm.Fits.noFunction_readsRow`). So the text of a term that is not nested too
deeply, as the body of a type alias, is read back as the tree of the term and of no other
(`SourceFile.type_readBack`).
-/

namespace FactorySync

open Parse

/-! ## What stands around a type -/

namespace TypeLevel

/-- What goes on with a type of the level. -/
def goesOn : TypeLevel → List Kind
  | .whole => []
  | .union => [.extendsKeyword]
  | .intersection => [.bar, .extendsKeyword]
  | .operator => [.ampersand, .bar, .extendsKeyword]
  | .postfixed => [.openBracket, .ampersand, .bar, .extendsKeyword]

/-- What may stand behind a type of the level. -/
def followers (l : TypeLevel) : List Kind :=
  l.goesOn ++
    [.closeParen, .closeBracket, .greaterThan, .openBrace, .closeBrace, .comma, .semicolon,
      .question, .colon]

/-- The words go on with what may stand behind a type of the level. -/
def Follows (l : TypeLevel) (ws : List Word) : Prop := (Word.first ws).kind ∈ l.followers

theorem Follows.mono {l l' : TypeLevel} {ws : List Word} (h : l.Follows ws)
    (le : l.goesOn ⊆ l'.goesOn) : l'.Follows ws :=
  List.append_subset.2 ⟨List.Subset.trans le (List.subset_append_left ..),
    List.subset_append_right ..⟩ h

theorem Follows.of_kind {l : TypeLevel} {ws : List Word} {k : Kind}
    (first : (Word.first ws).kind = k) (mem : k ∈ l.followers) : l.Follows ws := by
  rwa [Follows, first]

theorem Follows.ne {l : TypeLevel} {ws : List Word} {k : Kind} (h : l.Follows ws)
    (apart : k ∉ l.followers) : (Word.first ws).kind ≠ k :=
  fun same => apart (same ▸ h)

theorem Follows.noArrow {l : TypeLevel} {ws : List Word} (h : l.Follows ws) :
    (Word.first ws).kind ≠ .equalsGreaterThan :=
  h.ne (by cases l <;> decide)

end TypeLevel

/-- What a type may begin with. -/
def Kind.beginsTerm (k : Kind) : Bool :=
  k == .identifier || k == .openParen || k.isTypeWord || k.isTypeOperator

namespace Kind

variable {k : Kind}

theorem beginsTerm_cases (h : k.beginsTerm = true) :
    k = .identifier ∨ k = .openParen ∨ k.isTypeWord = true ∨ k.isTypeOperator = true := by
  simpa [beginsTerm, or_assoc] using h

/-- What no type begins with. -/
theorem ne_of_beginsTerm {k' : Kind} (h : k.beginsTerm = true) (other : k'.beginsTerm = false) :
    k ≠ k' := by
  rintro rfl
  rw [other] at h
  cases h

end Kind

namespace TypeTerm

variable {l : TypeLevel} {t : TypeTerm} {ws : List Word}

theorem Fits.first_word (fits : Fits l t) : ∃ w ws, t.words = w :: ws ∧
    w.kind.beginsTerm = true ∧ w.startsLine = false := by
  induction fits with
  | reference _ plain =>
    rw [words_reference]
    exact ⟨_, _, rfl, congrArg Kind.beginsTerm plain, rfl⟩
  | word isType =>
    rw [words]
    exact ⟨_, _, rfl, by simp [Word.keyword, Kind.beginsTerm, isType], rfl⟩
  | array _ ih =>
    obtain ⟨w, ws, row, first⟩ := ih
    rw [words, row]
    exact ⟨w, _, rfl, first⟩
  | indexed _ _ ih =>
    obtain ⟨w, ws, row, first⟩ := ih
    rw [words, row]
    exact ⟨w, _, rfl, first⟩
  | parenthesized =>
    rw [words]
    exact ⟨_, _, rfl, rfl, rfl⟩
  | operator isOperator =>
    rw [words]
    exact ⟨_, _, rfl, by simp [Word.keyword, Kind.beginsTerm, isOperator], rfl⟩
  | intersection _ ih =>
    obtain ⟨w, ws, row, first⟩ := ih _ (.head _)
    rw [words, rows, Word.joined_cons, row]
    exact ⟨w, _, rfl, first⟩
  | union _ ih =>
    obtain ⟨w, ws, row, first⟩ := ih _ (.head _)
    rw [words, rows, Word.joined_cons, row]
    exact ⟨w, _, rfl, first⟩
  | conditional _ _ _ _ ih =>
    obtain ⟨w, ws, row, first⟩ := ih
    rw [words, row]
    exact ⟨w, _, rfl, first⟩
  | ofPostfixed _ ih => exact ih
  | ofOperator _ ih => exact ih
  | ofIntersection _ ih => exact ih
  | ofUnion _ ih => exact ih

theorem Fits.first (fits : Fits l t) (ws : List Word) :
    (Word.first (t.words ++ ws)).kind.beginsTerm = true := by
  obtain ⟨w, more, row, begins, -⟩ := fits.first_word
  rwa [row]

theorem Fits.first_sameLine (fits : Fits l t) (ws : List Word) :
    (Word.first (t.words ++ ws)).startsLine = false := by
  obtain ⟨w, more, row, -, sameLine⟩ := fits.first_word
  rwa [row]

/-- A type that may stand in front of brackets begins with no operator. -/
theorem Fits.first_postfixed (fits : Fits l t) (tight : l = .postfixed) (ws : List Word) :
    (Word.first (t.words ++ ws)).kind.isTypeOperator = false := by
  induction fits generalizing ws with
  | reference _ plain =>
    rw [words_reference]
    exact congrArg Kind.isTypeOperator plain
  | @word k isType =>
    rw [words]
    refine Bool.eq_false_iff.2 fun isOperator => ?_
    obtain rfl | rfl := by simpa [Word.keyword, Kind.isTypeOperator] using isOperator
    all_goals cases isType
  | array _ ih =>
    rw [words, List.append_assoc]
    exact ih rfl _
  | indexed _ _ ih =>
    rw [words, List.append_assoc]
    exact ih rfl _
  | parenthesized =>
    rw [words]
    rfl
  | _ => cases tight

/-! ## No type is taken for a function type -/

/-- What stands behind a word in parentheses does not make it a parameter or a modifier. -/
structure NoParameter (ws : List Word) : Prop where
  plain : (Word.first ws).kind ∉ [.colon, .comma, .question, .equals, .enumKeyword]
  noArrow : (Word.first ws).kind = .closeParen → (Word.first ws.tail).kind ≠ .equalsGreaterThan

theorem NoParameter.of_kind {k : Kind} (first : (Word.first ws).kind = k)
    (other : k ∉ [.colon, .comma, .question, .equals, .enumKeyword, .closeParen]) :
    NoParameter ws := by
  simp only [List.mem_cons, List.not_mem_nil, or_false, not_or] at other
  obtain ⟨colon, comma, question, equals, enum, paren⟩ := other
  subst first
  exact ⟨by simp [colon, comma, question, equals, enum], fun h => absurd h paren⟩

theorem NoParameter.of_beginsTerm (begins : (Word.first ws).kind.beginsTerm = true) :
    NoParameter ws := by
  refine .of_kind rfl fun mem => ?_
  have other : ∀ k ∈ [Kind.colon, .comma, .question, .equals, .enumKeyword, .closeParen],
      k.beginsTerm = false := by decide
  rw [other _ mem] at begins
  cases begins

/-- The beginning of a row that does not begin with a parameter: some `readonly` in front of a word,
and then something that is no name or is not followed as a parameter is. -/
inductive BeginsPlain : List Word → Prop
  | word {w : Word} {ws : List Word}
    (noModifier : w.kind.isModifier = true → w.kind = .constKeyword)
    (noPattern : w.kind ≠ .openBrace ∧ w.kind ≠ .openBracket) (behind : NoParameter ws) :
    BeginsPlain (w :: ws)
  | paren {ws : List Word} : BeginsPlain (.mark .openParen '(' :: ws)
  | readonly {ws : List Word} (word : (Word.first ws).kind.isPropertyWord = true)
    (sameLine : (Word.first ws).startsLine = false) (rest : BeginsPlain ws) :
    BeginsPlain (.keyword .readonlyKeyword :: ws)
  | readonlyParen {ws : List Word} (paren : (Word.first ws).kind = .openParen) :
    BeginsPlain (.keyword .readonlyKeyword :: ws)

theorem isPropertyWord_of_beginsTerm {k : Kind} (h : k.beginsTerm = true) :
    k = .openParen ∨ k.isPropertyWord = true := by
  obtain rfl | rfl | isType | isOperator := Kind.beginsTerm_cases h
  · exact .inr rfl
  · exact .inl rfl
  · unfold Kind.isTypeWord at isType
    split at isType
    all_goals first | exact .inr rfl | cases isType
  · obtain rfl | rfl := by simpa [Kind.isTypeOperator] using isOperator
    · exact .inr rfl
    · exact .inr rfl

theorem beginsPlain_word {k : Kind} (isType : k.isTypeWord = true) (behind : NoParameter ws) :
    BeginsPlain (.keyword k :: ws) := by
  unfold Kind.isTypeWord at isType
  split at isType
  all_goals first
    | exact .word (by decide) (by decide) behind
    | cases isType

/-- In parentheses no term begins with a parameter. -/
theorem Fits.beginsPlain (fits : Fits l t) (behind : NoParameter ws) :
    BeginsPlain (t.words ++ ws) := by
  induction fits generalizing ws with
  | @reference first others arguments _ plain =>
    rw [words_reference]
    refine .word (w := .name first) (by simp [Word.name, plain, Kind.isModifier])
      (by simp [Word.name, plain]) ?_
    cases others with
    | cons => exact .of_kind (k := .dot) rfl (by decide)
    | nil =>
      cases arguments with
      | cons => exact .of_kind (k := .lessThan) rfl (by decide)
      | nil => exact behind
  | word isType =>
    rw [words]
    exact beginsPlain_word isType behind
  | array _ ih =>
    rw [words, List.append_assoc]
    exact ih (.of_kind (k := .openBracket) rfl (by decide))
  | indexed _ _ ih =>
    rw [words, List.append_assoc]
    exact ih (.of_kind (k := .openBracket) rfl (by decide))
  | parenthesized =>
    rw [words]
    exact .paren
  | operator isOperator operand ih =>
    have begins := operand.first ws
    rw [words]
    obtain rfl | rfl := by simpa [Kind.isTypeOperator] using isOperator
    · exact .word (by decide) (by decide) (.of_beginsTerm begins)
    · obtain paren | word := isPropertyWord_of_beginsTerm begins
      · exact .readonlyParen paren
      · exact .readonly word (operand.first_sameLine ws) (ih behind)
  | intersection _ ih =>
    rw [words, rows, rows, Word.joined_cons, List.append_assoc]
    exact ih _ (.head _) (.of_kind (k := .ampersand) rfl (by decide))
  | union _ ih =>
    rw [words, rows, rows, Word.joined_cons, List.append_assoc]
    exact ih _ (.head _) (.of_kind (k := .bar) rfl (by decide))
  | conditional _ _ _ _ ih =>
    rw [words, List.append_assoc]
    exact ih (.of_kind (k := .extendsKeyword) rfl (by decide))
  | ofPostfixed _ ih => exact ih behind
  | ofOperator _ ih => exact ih behind
  | ofIntersection _ ih => exact ih behind
  | ofUnion _ ih => exact ih behind

/-- The words begin neither with a pattern nor with a name that is followed as a parameter is. -/
structure NoStart (ws : List Word) : Prop where
  noPattern : (Word.first ws).kind ≠ .openBrace ∧ (Word.first ws).kind ≠ .openBracket
  behind : (Word.first ws).kind.isName = true ∨ (Word.first ws).kind = .thisKeyword →
    NoParameter ws.tail

section Lookahead

open FactorySync.Parser

variable {c : Context}

theorem isModifierHere_readonly : isModifierHere.ReadsRow c (.keyword .readonlyKeyword :: ws)
    (.keyword .readonlyKeyword :: ws) (· = (!(Word.first ws).startsLine &&
      ((Word.first ws).kind.isPropertyWord || (Word.first ws).kind == .openBrace ||
        (Word.first ws).kind == .openBracket || (Word.first ws).kind == .asterisk ||
        (Word.first ws).kind == .dotDotDot))) := by
  refine .andThen .kind (.lookAhead ⟨ws, .andThen .advance (.andThen .kind ?_)⟩)
  exact .andThen .afterLineBreak (.pure rfl)

theorem isModifierHere_const {w : Word} (isConst : w.kind = .constKeyword)
    (noEnum : (Word.first ws).kind ≠ .enumKeyword) :
    isModifierHere.ReadsRow c (w :: ws) (w :: ws) (· = false) := by
  refine .andThen .kind (.lookAhead ⟨ws, .andThen .advance (.andThen .kind ?_)⟩)
  rw [Word.first_cons, isConst]
  exact .pure (beq_false_of_ne noEnum)

theorem modifiers_over {found : Modifiers} (isOver : (Word.first ws).kind.isModifier = true →
    isModifierHere.ReadsRow c ws ws (· = false)) (n : Nat) :
    (iterate modifiersRound n found).ReadsRow c ws ws (· = found) := by
  refine .iterate_inr (.andThen .kind ?_) n
  by_cases isModifier : (Word.first ws).kind.isModifier = true
  · refine .ite_pos isModifier (.andThen (isOver isModifier) (.ite_neg Bool.false_ne_true ?_))
    exact .pure ⟨found, rfl, rfl⟩
  · exact .ite_neg isModifier (.pure ⟨found, rfl, rfl⟩)

/-- Behind the modifiers no parameter begins. -/
theorem BeginsPlain.modifiers_readsRow (h : BeginsPlain ws) : ∃ mid, NoStart mid ∧
    ∀ n found, (iterate modifiersRound n found).ReadsRow c ws mid fun _ => True := by
  have readsOver {ws : List Word} (isOver : (Word.first ws).kind.isModifier = true →
      isModifierHere.ReadsRow c ws ws (· = false)) (n : Nat) (found : Modifiers) :
      (iterate modifiersRound n found).ReadsRow c ws ws fun _ => True :=
    (modifiers_over isOver n).mono fun _ _ => trivial
  induction h with
  | @word w ws noModifier noPattern behind =>
    refine ⟨w :: ws, ⟨noPattern, fun _ => behind⟩, readsOver fun isModifier => ?_⟩
    have noEnum : (Word.first ws).kind ≠ .enumKeyword :=
      fun isEnum => behind.plain (by simp [isEnum])
    exact isModifierHere_const (noModifier isModifier) noEnum
  | @paren ws =>
    exact ⟨.mark .openParen '(' :: ws, ⟨⟨nofun, nofun⟩, fun h => h.elim nofun nofun⟩,
      readsOver nofun⟩
  | @readonly ws word sameLine rest ih =>
    obtain ⟨mid, plain, reads⟩ := ih
    refine ⟨mid, plain, fun n found => ?_⟩
    refine .iterate_inl (P := fun _ => True) ?_ (fun m _ n => reads n m) n
    refine .andThen .kind (.ite_pos rfl (.andThen isModifierHere_readonly (.ite_pos ?_ ?_)))
    · simp [word, sameLine]
    · exact .andThen .advance (.pure ⟨_, rfl, trivial⟩)
  | @readonlyParen ws paren =>
    refine ⟨.keyword .readonlyKeyword :: ws, ⟨⟨nofun, nofun⟩, fun _ => .of_kind paren (by decide)⟩,
      readsOver fun _ => isModifierHere_readonly.mono fun b hb => ?_⟩
    rw [hb, paren]
    exact Bool.and_false _

theorem BeginsPlain.skipParameterStart_readsRow (h : BeginsPlain ws) : ∃ b mid,
    (b = true → NoParameter mid) ∧ skipParameterStart.ReadsRow c ws mid (· = b) := by
  obtain ⟨mid, noStart, reads⟩ := h.modifiers_readsRow (c := c)
  have modified : modifiers.ReadsRow c ws mid fun _ => True := .loop fun n => reads n _
  by_cases isName : ((Word.first mid).kind.isName || (Word.first mid).kind == .thisKeyword) = true
  · refine ⟨true, mid.tail, fun _ => noStart.behind (by simpa using isName), ?_⟩
    refine .bind modified fun _ _ => .andThen .kind (.ite_pos isName ?_)
    exact .andThen .advance (.pure rfl)
  · refine ⟨false, mid, nofun, .bind modified fun _ _ => .andThen .kind (.ite_neg isName ?_)⟩
    exact .ite_neg (not_or.2 noStart.noPattern) (.pure rfl)

theorem BeginsPlain.opensFunctionType_readsRow {w : Word} (h : BeginsPlain ws)
    (open_ : (Word.first ws).kind ≠ .closeParen ∧ (Word.first ws).kind ≠ .dotDotDot) :
    opensFunctionType.ReadsRow c (w :: ws) (w :: ws) (· = false) := by
  obtain ⟨b, mid, noParameter, reads⟩ := h.skipParameterStart_readsRow
    (c := { c with trusted := false })
  have first : ¬ ((Word.first ws).kind = .closeParen ∨ (Word.first ws).kind = .dotDotDot) :=
    not_or.2 open_
  cases b with
  | false =>
    refine .lookAhead ⟨mid, .andThen .advance (.andThen .kind (.ite_neg first ?_))⟩
    exact .andThen reads (.ite_neg Bool.false_ne_true (.pure rfl))
  | true =>
    have noParameter := noParameter rfl
    by_cases closed : (Word.first mid).kind = .closeParen
    · refine .lookAhead ⟨mid.tail, .andThen .advance (.andThen .kind (.ite_neg first ?_))⟩
      refine .andThen reads (.ite_pos rfl (.andThen .kind ?_))
      rw [closed]
      refine .andThen .advance (.andThen .kind (.pure ?_))
      exact beq_false_of_ne (noParameter.noArrow closed)
    · refine .lookAhead ⟨mid, .andThen .advance (.andThen .kind (.ite_neg first ?_))⟩
      refine .andThen reads (.ite_pos rfl (.andThen .kind ?_))
      have plain := noParameter.plain
      split
      · next colon => exact absurd (by simp [colon]) plain
      · next comma => exact absurd (by simp [comma]) plain
      · next question => exact absurd (by simp [question]) plain
      · next equals => exact absurd (by simp [equals]) plain
      · next paren => exact absurd paren closed
      · exact .pure rfl

theorem noArrow_of_kind {k : Kind} (first : (Word.first ws).kind = k)
    (other : k ≠ .equalsGreaterThan) : (Word.first ws).kind ≠ .equalsGreaterThan :=
  first ▸ other

/-- No term is taken for a function type. -/
theorem Fits.noFunction_readsRow (fits : Fits l t)
    (noArrow : (Word.first ws).kind ≠ .equalsGreaterThan) :
    beginsFunctionType.ReadsRow c (t.words ++ ws) (t.words ++ ws) (· = false) := by
  have atOnce {w : Word} {ws : List Word} (begins : w.kind.beginsTerm = true)
      (noParen : w.kind ≠ .openParen) :
      beginsFunctionType.ReadsRow c (w :: ws) (w :: ws) (· = false) := by
    refine .andThen .kind ?_
    rw [Word.first_cons]
    split
    · next other => exact absurd other (Kind.ne_of_beginsTerm begins rfl)
    · next other => exact absurd other (Kind.ne_of_beginsTerm begins rfl)
    · next other => exact absurd other (Kind.ne_of_beginsTerm begins rfl)
    · next paren => exact absurd paren noParen
    · exact .pure rfl
  induction fits generalizing ws with
  | reference _ plain =>
    rw [words_reference]
    refine atOnce (congrArg Kind.beginsTerm plain) fun paren => ?_
    rw [show (Word.name _).kind = _ from plain] at paren
    cases paren
  | word isType =>
    rw [words]
    exact atOnce (by simp [Word.keyword, Kind.beginsTerm, isType]) (by rintro ⟨⟩; cases isType)
  | array _ ih =>
    rw [words, List.append_assoc]
    exact ih (noArrow_of_kind (k := .openBracket) rfl (by decide))
  | indexed _ _ ih =>
    rw [words, List.append_assoc]
    exact ih (noArrow_of_kind (k := .openBracket) rfl (by decide))
  | @parenthesized t inner =>
    rw [words, List.cons_append, List.append_assoc]
    refine .andThen .kind ?_
    have begins := inner.first (.mark .closeParen ')' :: ws)
    have plain : BeginsPlain (t.words ++ .mark .closeParen ')' :: ws) :=
      inner.beginsPlain ⟨by simp [Word.mark], fun _ => noArrow⟩
    exact plain.opensFunctionType_readsRow
      ⟨Kind.ne_of_beginsTerm begins rfl, Kind.ne_of_beginsTerm begins rfl⟩
  | operator isOperator =>
    rw [words]
    exact atOnce (by simp [Word.keyword, Kind.beginsTerm, isOperator])
      (by rintro ⟨⟩; cases isOperator)
  | intersection _ ih =>
    rw [words, rows, rows, Word.joined_cons, List.append_assoc]
    exact ih _ (.head _) (noArrow_of_kind (k := .ampersand) rfl (by decide))
  | union _ ih =>
    rw [words, rows, rows, Word.joined_cons, List.append_assoc]
    exact ih _ (.head _) (noArrow_of_kind (k := .bar) rfl (by decide))
  | conditional _ _ _ _ ih =>
    rw [words, List.append_assoc]
    exact ih (noArrow_of_kind (k := .extendsKeyword) rfl (by decide))
  | ofPostfixed _ ih => exact ih noArrow
  | ofOperator _ ih => exact ih noArrow
  | ofIntersection _ ih => exact ih noArrow
  | ofUnion _ ih => exact ih noArrow

end Lookahead

/-! ## Names -/

section Reading

open FactorySync.Parser

variable {c : Context}

/-- A node made of children that are trees of terms. -/
theorem node_readsRow {k : Kind} {start : Nat} {children : List Node} :
    (node k start children).ReadsRow c ws ws fun n => n.unplaced =
      { kind := k, span := .empty 0, children := children.map (·.unplaced) } := by
  refine ReadsRow.node_eq.mono fun n hn => ?_
  obtain ⟨stop, rfl⟩ := hn
  rw [Node.unplaced_mk]
  rfl

theorem name_of_unplaced {n : Node} {x : String} (h : n.unplaced = nameTree x) :
    n.identifierName? = some x := by
  obtain ⟨role, kind, span, flags, modifiers, detail, marks, lists, children⟩ := n
  rw [Node.unplaced_mk] at h
  injection h with _ _ _ _ _ same
  cases detail with
  | identifier =>
    injection same with name
    rw [Node.identifierName?, name]
  | _ => cases same

theorem identifierHere_readsRow {w : Word} :
    identifierHere.ReadsRow c (w :: ws) ws fun n => n.unplaced = nameTree w.value := by
  refine .bind .token fun t ht => .andThen .advance (.pure ?_)
  rw [Node.unplaced_mk, ht.value]
  rfl

theorem identifierIf_readsRow {test : Kind → Bool} {w : Word} (names : test w.kind = true) :
    (identifierIf test).ReadsRow c (w :: ws) ws fun n => n.unplaced = nameTree w.value :=
  .andThen .kind (.ite_pos names identifierHere_readsRow)

theorem nameTree_readsRow {test : Kind → Bool} {x : String} (names : test (.ofName x) = true) :
    (identifierIf test).ReadsRow c (.name x :: ws) ws fun n => n.unplaced = nameTree x :=
  identifierIf_readsRow names

theorem entityName_readsRow {first : String} (others : List String)
    (isName : (Kind.ofName first).isName = true) (noDot : (Word.first ws).kind ≠ .dot) :
    entityName.ReadsRow c
      (.name first :: (others.flatMap (fun x => [.mark .dot '.', .name x]) ++ ws)) ws
      fun n => n.unplaced = dottedTree first others := by
  refine .bind .here fun start _ => .bind (nameTree_readsRow isName) fun left hleft => ?_
  rw [dottedTree, ← hleft]
  refine .loop fun n => ?_
  clear hleft isName
  induction others generalizing left n with
  | nil =>
    refine .iterate_inr ?_ n
    refine .andThen (.accept_neg noDot) (.ite_neg Bool.false_ne_true ?_)
    exact .pure ⟨left, rfl, rfl⟩
  | cons x others ih =>
    refine .iterate_inl (P := fun m => m.unplaced = qualified left.unplaced x) ?_
      (fun m hm n => (ih m n).mono fun found hfound => by rw [hfound, hm, List.foldl_cons]) n
    refine .andThen (.accept_pos rfl) (.ite_pos rfl ?_)
    refine .bind (nameTree_readsRow (Kind.isPropertyWord_ofName x)) fun right hright => ?_
    refine .bind node_readsRow fun m hm => .pure ⟨m, rfl, ?_⟩
    rw [hm, List.map_cons, List.map_singleton, Node.unplaced_inRole, Node.unplaced_inRole, hright,
      qualified]

/-! ## Levels -/

/-- One round of reading brackets behind a type. -/
def bracketRound (start : Nat) (type : Node) : Parser (Node ⊕ Node) := do
  if !(← afterLineBreak) && (← kind) == .openBracket then
    advance
    if ← accept .closeBracket then
      return .inl (← node .arrayType start [type.inRole .elementType])
    else
      let index ← need .type
      require .closeBracket
      return .inl (← node .indexedAccessType start
        [type.inRole .objectType, index.inRole .indexType])
  else return .inr type

theorem postfixType_eq : postfixType = (do
    let start ← here
    let first ← primaryType
    loop (bracketRound start) first) := rfl

/-- The parser reads the term in front of what may stand behind a type of the level. -/
def ReadBy (p : Parser Node) (l : TypeLevel) (t : TypeTerm) : Prop :=
  ∀ {c : Context} {ws : List Word}, c.Room t.nesting → l.Follows ws →
    p.ReadsRow c (t.words ++ ws) ws fun n => n.unplaced = t.tree

/-- The production of the level reads the term. At the tightest level brackets may follow, which
belong to the type; so there it is said what is read if the term has been read. -/
def Reads : TypeLevel → TypeTerm → Prop
  | .postfixed, t => ∀ {c : Context} {ws rest : List Word} {P : Node → Prop},
    c.Room t.nesting → TypeLevel.postfixed.Follows ws →
    (∀ start n m, m.unplaced = t.tree → (iterate (bracketRound start) n m).ReadsRow c ws rest P) →
    postfixType.ReadsRow c (t.words ++ ws) rest P
  | .operator, t => t.ReadBy typeOperand .operator
  | .intersection, t => t.ReadBy intersectionType .intersection
  | .union, t => t.ReadBy unionType .union
  | .whole, t => ∀ {c : Context} {ws : List Word}, c.Room (t.nesting + 1) →
    TypeLevel.whole.Follows ws → (need .type).ReadsRow c (t.words ++ ws) ws fun n =>
      n.unplaced = t.tree

/-- The trees of terms in a role. -/
theorem unplaced_trees {role : Role} {ts : List TypeTerm} {ns : List Node}
    (h : List.Forall₂ (fun t n => n.unplaced = t.tree) ts ns) :
    (ns.map (·.inRole role)).map (·.unplaced) = trees role ts := by
  induction h with
  | nil => rfl
  | cons same _ ih => rw [List.map_cons, List.map_cons, ih, Node.unplaced_inRole, same, trees]

/-! ### Types that begin with their own token -/

theorem arguments_readsRow {ts : List TypeTerm} (fits : ∀ t ∈ ts, t.Fits .whole)
    (reads : ∀ t ∈ ts, t.Reads .whole) (room : ∀ t ∈ ts, c.Room (t.nesting + 1))
    (noAngle : (Word.first ws).kind ≠ .lessThan) :
    typeArgumentsOnLine.ReadsRow c (argumentsWords ts ++ ws) ws fun x =>
      x.1 = (if ts.isEmpty then [] else [.typeArguments]) ∧
        x.2.map (·.unplaced) = trees .typeArguments ts := by
  refine .andThen .afterLineBreak ?_
  cases ts with
  | nil =>
    by_cases startsLine : (Word.first ws).startsLine = true
    · exact .ite_pos startsLine (.pure ⟨rfl, rfl⟩)
    · exact .ite_neg startsLine (.andThen .kind (.ite_neg noAngle (.pure ⟨rfl, rfl⟩)))
  | cons t ts =>
    refine .ite_neg Bool.false_ne_true (.andThen .kind ?_)
    have goesOn : ∀ u ∈ t :: ts, ∀ ws,
        Kind.endsAngles (Word.first (u.words ++ ws)).kind = false := fun u mem ws => by
      have begins := (fits u mem).first ws
      rw [Kind.endsAngles, beq_false_of_ne (Kind.ne_of_beginsTerm begins rfl),
        beq_false_of_ne (Kind.ne_of_beginsTerm begins rfl), Bool.false_or]
    have items : (commaList Kind.endsAngles (need .type)).ReadsRow c
        (Word.list words (t :: ts) ++ .mark .greaterThan '>' :: ws) (.mark .greaterThan '>' :: ws)
        (List.Forall₂ (fun t n => n.unplaced = t.tree) (t :: ts)) :=
      .commaList (fun w => w.kind ∈ TypeLevel.whole.followers) (by decide)
        (fun u mem ws follows => ⟨goesOn u mem ws, reads u mem (room u mem) follows⟩)
        (by simp [Word.mark, TypeLevel.followers]) rfl nofun
    have whole : typeArguments.ReadsRow c (argumentsWords (t :: ts) ++ ws) ws fun ns =>
        ns.map (·.unplaced) = trees .typeArguments (t :: ts) := by
      rw [argumentsWords, List.isEmpty_cons, if_neg Bool.false_ne_true, List.cons_append,
        List.append_assoc]
      refine .andThen (.require rfl) (.bind items fun ns hns => .andThen (.require rfl) (.pure ?_))
      exact unplaced_trees hns
    exact .ite_pos rfl (.bind whole fun ns hns => .pure ⟨rfl, hns⟩)

/-- A type that begins with its own token is read before the brackets behind it. -/
theorem reads_of_primary {t : TypeTerm} (primary : ∀ {c : Context} {ws : List Word},
    c.Room t.nesting → TypeLevel.postfixed.Follows ws →
    primaryType.ReadsRow c (t.words ++ ws) ws fun n => n.unplaced = t.tree) :
    t.Reads .postfixed := by
  intro c ws rest P room follows goesOn
  rw [postfixType_eq]
  refine .bind .here fun start _ => .bind (primary room follows) fun first found => ?_
  exact .loop fun n => goesOn start n first found

theorem reference_reads {first : String} {others : List String} {ts : List TypeTerm}
    (plain : Kind.ofName first = .identifier) (fits : ∀ t ∈ ts, t.Fits .whole)
    (reads : ∀ t ∈ ts, t.Reads .whole) : (reference first others ts).Reads .postfixed := by
  refine reads_of_primary fun {c ws} room follows => ?_
  rw [nesting] at room
  have noDot : (Word.first (argumentsWords ts ++ ws)).kind ≠ .dot := by
    cases ts with
    | nil => exact follows.ne (by decide)
    | cons => exact nofun
  have arguments := arguments_readsRow (c := c) fits reads
    (fun t mem => room.mono (nestingInside_le.1 (Nat.le_refl _) t mem))
    (follows.ne (by decide))
  have name := entityName_readsRow (c := c) others (by rw [plain]; rfl) noDot
  rw [words_reference, List.cons_append, List.append_assoc]
  refine .bind .here fun start _ => .andThen .kind ?_
  rw [Word.first_cons, show (Word.name first).kind = .identifier from plain]
  refine .ite_neg (by decide) (.andThen .nextIs (.ite_neg Bool.false_ne_true (.ite_pos rfl ?_)))
  refine .bind name fun n hn => .bind arguments fun x hx => ?_
  obtain ⟨hlists, hnodes⟩ := hx
  refine .bind ReadsRow.node_eq fun m hm => .pure ?_
  obtain ⟨stop, rfl⟩ := hm
  rw [Node.unplaced_mk, tree, List.map_cons, Node.unplaced_inRole, hn, hnodes, ← hlists]
  rfl

theorem word_reads {k : Kind} (isType : k.isTypeWord = true) : (word k).Reads .postfixed := by
  refine reads_of_primary fun _ _ => ?_
  rw [words]
  refine .bind .here fun start _ => .andThen .kind (.ite_pos isType ?_)
  refine .bind .token fun t ht => .andThen .advance (.pure ?_)
  rw [Node.unplaced_mk, ht.kind]
  rfl

theorem parenthesized_reads (reads : t.Reads .whole) : (parenthesized t).Reads .postfixed := by
  refine reads_of_primary fun {c ws} room _ => ?_
  rw [nesting] at room
  have inner := @reads c (.mark .closeParen ')' :: ws) room
    (.of_kind (k := .closeParen) rfl (by decide))
  rw [words, List.cons_append, List.append_assoc]
  refine .bind .here fun start _ => .andThen .kind (.ite_neg Bool.false_ne_true ?_)
  refine .andThen .advance ?_
  refine .bind inner fun n hn => .andThen (.require rfl) (node_readsRow.mono fun m hm => ?_)
  rw [hm, tree, List.map_singleton, Node.unplaced_inRole, hn]

/-! ### Brackets and operators -/

theorem array_reads (reads : t.Reads .postfixed) : (array t).Reads .postfixed := by
  intro c ws rest P room follows goesOn
  rw [nesting] at room
  rw [words, List.append_assoc]
  refine reads room (.of_kind (k := .openBracket) rfl (by decide)) fun start n m hm => ?_
  refine .iterate_inl (P := fun n => n.unplaced = (array t).tree) ?_
    (fun m hm n => goesOn start n m hm) n
  refine .andThen .afterLineBreak (.andThen .kind (.ite_pos rfl (.andThen .advance ?_)))
  refine .andThen (.accept_pos rfl) (.ite_pos rfl ?_)
  refine .bind node_readsRow fun k hk => .pure ⟨k, rfl, ?_⟩
  rw [hk, tree, List.map_singleton, Node.unplaced_inRole, hm]

theorem indexed_reads {u : TypeTerm} (object : t.Reads .postfixed) (fits : u.Fits .whole)
    (index : u.Reads .whole) : (indexed t u).Reads .postfixed := by
  intro c ws rest P room follows goesOn
  rw [nesting] at room
  have inner := @index c (.mark .closeBracket ']' :: ws) (room.mono (Nat.le_max_right ..))
    (.of_kind (k := .closeBracket) rfl (by decide))
  rw [words, List.append_assoc, List.cons_append, List.append_assoc]
  refine object (room.mono (Nat.le_max_left ..)) (.of_kind (k := .openBracket) rfl (by decide))
    fun start n m hm => ?_
  refine .iterate_inl (P := fun n => n.unplaced = (indexed t u).tree) ?_
    (fun m hm n => goesOn start n m hm) n
  refine .andThen .afterLineBreak (.andThen .kind (.ite_pos rfl (.andThen .advance ?_)))
  have noClose : (Word.first (u.words ++ .mark .closeBracket ']' :: ws)).kind ≠ .closeBracket :=
    Kind.ne_of_beginsTerm (fits.first _) rfl
  refine .andThen (.accept_neg noClose) (.ite_neg Bool.false_ne_true ?_)
  refine .bind inner fun n hn => ?_
  refine .andThen (.require rfl) (.bind node_readsRow fun k hk => .pure ⟨k, rfl, ?_⟩)
  rw [hk, tree, List.map_cons, List.map_singleton, Node.unplaced_inRole, Node.unplaced_inRole, hm,
    hn]

theorem postfixed_reads (fits : t.Fits .postfixed) (reads : t.Reads .postfixed) :
    t.Reads .operator := by
  intro c ws room follows
  have noBracket := follows.ne (k := .openBracket) (by decide)
  have whole : postfixType.ReadsRow c (t.words ++ ws) ws fun n => n.unplaced = t.tree := by
    refine reads room (follows.mono (by decide)) fun start n m hm => .iterate_inr ?_ n
    refine .andThen .afterLineBreak (.andThen .kind (.ite_neg ?_ (.pure ⟨m, rfl, hm⟩)))
    simpa using fun _ => noBracket
  have begins := (Fits.ofPostfixed fits).first ws
  have noOperator := fits.first_postfixed rfl ws
  refine .bind .here fun start _ => .andThen .kind ?_
  split
  · next isKeyOf => rw [isKeyOf] at noOperator; cases noOperator
  · next isUnique => exact absurd isUnique (Kind.ne_of_beginsTerm begins rfl)
  · next isReadonly => rw [isReadonly] at noOperator; cases noOperator
  · next isInfer => exact absurd isInfer (Kind.ne_of_beginsTerm begins rfl)
  · exact whole

theorem operator_reads {k : Kind} (isOperator : k.isTypeOperator = true)
    (reads : t.Reads .operator) : (operator k t).Reads .operator := by
  intro c ws room follows
  rw [nesting] at room
  rw [words, List.cons_append]
  refine .bind .here fun start _ => .andThen .kind ?_
  obtain rfl | rfl := by simpa [Kind.isTypeOperator] using isOperator
  all_goals
    refine .andThen .advance (.bind (.need (reads room follows)) fun n hn => ?_)
    refine .bind ReadsRow.node_eq fun m hm => .pure ?_
    obtain ⟨stop, rfl⟩ := hm
    rw [Node.unplaced_mk, tree, List.map_singleton, Node.unplaced_inRole, hn]
    rfl

/-! ### Members -/

section Joined

variable {op joined : Kind} {w : Word} {member : Parser Node} {l : TypeLevel}

/-- A member is read unless it is a function type. -/
theorem member_readsRow {rest : List Word} {P : Node → Prop} {otherwise : Parser Node}
    (fits : t.Fits l) (noArrow : (Word.first ws).kind ≠ .equalsGreaterThan)
    (h : member.ReadsRow c (t.words ++ ws) rest P) :
    Parser.ReadsRow (do if ← beginsFunctionType then otherwise else member) c (t.words ++ ws) rest
      P :=
  .andThen (fits.noFunction_readsRow noArrow) (.ite_neg Bool.false_ne_true h)

/-- A single member stands for itself. -/
theorem single_reads (fits : t.Fits l) (noOperator : op.beginsTerm = false)
    (notBehind : (Word.first ws).kind ≠ op) (follows : l.Follows ws)
    (h : member.ReadsRow c (t.words ++ ws) ws fun n => n.unplaced = t.tree) :
    (joinedTypes op joined member).ReadsRow c (t.words ++ ws) ws fun n => n.unplaced = t.tree := by
  have notFirst := Kind.ne_of_beginsTerm (fits.first ws) noOperator
  refine .bind .here fun start _ => .andThen (.accept_neg notFirst) ?_
  refine .bind (member_readsRow fits follows.noArrow h) fun n hn => ?_
  exact .andThen .kind (.ite_neg notBehind (.pure hn))

/-- Members with the operator between them. -/
theorem joined_reads {ts : List TypeTerm} (fits : ∀ m ∈ t :: ts, m.Fits l) (some : ts ≠ [])
    (noOperator : op.beginsTerm = false) (isOperator : w.kind = op) (goesOn : op ∈ l.followers)
    (notBehind : (Word.first ws).kind ≠ op) (follows : l.Follows ws)
    (reads : ∀ m ∈ t :: ts, ∀ ws, l.Follows ws →
      member.ReadsRow c (m.words ++ ws) ws fun n => n.unplaced = m.tree) :
    (joinedTypes op joined member).ReadsRow c (Word.joined w (rows (t :: ts)) ++ ws) ws
      fun n => n.unplaced =
        { kind := joined, span := .empty 0, children := trees .types (t :: ts) } := by
  have notFirst := Kind.ne_of_beginsTerm ((fits t (.head _)).first
    (ts.flatMap (fun m => w :: m.words) ++ ws)) noOperator
  have behind : (Word.first (ts.flatMap (fun m => w :: m.words) ++ ws)).kind = op := by
    cases ts with
    | nil => exact absurd rfl some
    | cons => exact isOperator
  have row : Word.joined w (rows (t :: ts)) ++ ws =
      t.words ++ (ts.flatMap (fun m => w :: m.words) ++ ws) := by
    rw [rows, Word.joined_cons, rows_eq, List.flatMap_map, List.append_assoc]
  have read (m : TypeTerm) (mem : m ∈ t :: ts) (ws : List Word) (follows : l.Follows ws) :
      Parser.ReadsRow (do if ← beginsFunctionType then functionType else member) c
        (m.words ++ ws) ws fun n => n.unplaced = m.tree :=
    member_readsRow (fits m mem) follows.noArrow (reads m mem ws follows)
  rw [row]
  refine .bind .here fun start _ => .andThen (.accept_neg notFirst) ?_
  refine .bind (read t (.head _) _ (.of_kind behind goesOn)) fun first hfirst => ?_
  refine .andThen .kind (.ite_pos behind ?_)
  have rest := ReadsRow.manyWhile_accept (R := fun m (n : Node) => n.unplaced = m.tree)
    (fun w => w.kind ∈ l.followers) isOperator (isOperator ▸ goesOn)
    (fun m mem ws follows => read m (.tail _ mem) ws follows) follows notBehind
  refine .bind rest fun others hothers => ?_
  refine node_readsRow.mono fun n hn => ?_
  rw [hn, unplaced_trees (.cons hfirst hothers)]

end Joined

theorem operand_reads (fits : t.Fits .operator) (reads : t.Reads .operator) :
    t.Reads .intersection := by
  intro c ws room follows
  exact single_reads fits rfl (follows.ne (by decide)) (follows.mono (by decide))
    (.need (reads room (follows.mono (by decide))))

theorem intersection_reads {ts : List TypeTerm} (fits : ∀ m ∈ t :: ts, m.Fits .operator)
    (some : ts ≠ []) (reads : ∀ m ∈ t :: ts, m.Reads .operator) :
    (intersection (t :: ts)).Reads .intersection := by
  intro c ws room follows
  rw [nesting] at room
  rw [words, tree]
  have room (m : TypeTerm) (mem : m ∈ t :: ts) : c.Room m.nesting :=
    room.mono (nestingAmong_le.1 (Nat.le_refl _) m mem)
  exact joined_reads fits some rfl rfl (by decide) (follows.ne (by decide))
    (follows.mono (by decide)) fun m mem ws follows => .need (reads m mem (room m mem) follows)

theorem single_union_reads (fits : t.Fits .intersection) (reads : t.Reads .intersection) :
    t.Reads .union := by
  intro c ws room follows
  exact single_reads fits rfl (follows.ne (by decide)) (follows.mono (by decide))
    (reads room (follows.mono (by decide)))

theorem union_reads {ts : List TypeTerm} (fits : ∀ m ∈ t :: ts, m.Fits .intersection)
    (some : ts ≠ []) (reads : ∀ m ∈ t :: ts, m.Reads .intersection) :
    (union (t :: ts)).Reads .union := by
  intro c ws room follows
  rw [nesting] at room
  rw [words, tree]
  have room (m : TypeTerm) (mem : m ∈ t :: ts) : c.Room m.nesting :=
    room.mono (nestingAmong_le.1 (Nat.le_refl _) m mem)
  exact joined_reads fits some rfl rfl (by decide) (follows.ne (by decide))
    (follows.mono (by decide)) fun m mem ws follows => reads m mem (room m mem) follows

/-! ### Whole types -/

theorem acceptExtends_pos (outside : c.inExtends = false)
    (isNext : (Word.first ws).kind = .extendsKeyword)
    (sameLine : (Word.first ws).startsLine = false) :
    acceptExtends.ReadsRow c ws ws.tail (· = true) := by
  refine .andThen (.view fun s faces => faces.inExtends) (.andThen .afterLineBreak ?_)
  rw [outside, sameLine]
  exact .accept_pos isNext

theorem acceptExtends_neg (isNot : (Word.first ws).kind ≠ .extendsKeyword) :
    acceptExtends.ReadsRow c ws ws (· = false) := by
  refine .andThen (.view fun s faces => faces.inExtends) (.andThen .afterLineBreak ?_)
  cases !c.inExtends && !(Word.first ws).startsLine with
  | false => exact .pure rfl
  | true => exact .accept_neg isNot

/-- No `extends` follows a type that is no check type, wherever it stands. -/
theorem union_wholeType (fits : t.Fits .union) (reads : t.Reads .union)
    (room : c.Room t.nesting) (follows : TypeLevel.whole.Follows ws) :
    wholeType.ReadsRow c (t.words ++ ws) ws fun n => n.unplaced = t.tree := by
  refine .andThen (fits.noFunction_readsRow follows.noArrow) (.ite_neg Bool.false_ne_true ?_)
  refine .bind .here fun start _ => .bind (reads room (follows.mono (by decide))) fun n hn => ?_
  exact .andThen (acceptExtends_neg (follows.ne (by decide))) (.ite_neg Bool.false_ne_true (.pure hn))

/-- The type behind `extends`. -/
theorem bound_readsRow (fits : t.Fits .union) (reads : t.Reads .union)
    (room : c.Room (t.nesting + 1)) (follows : TypeLevel.whole.Follows ws) :
    (need .boundType).ReadsRow c (t.words ++ ws) ws fun n => n.unplaced = t.tree := by
  refine .need (.withExtends (.deeper (room.mono (Nat.le_add_left ..)) ?_))
  exact union_wholeType fits reads room.nested follows

theorem reads_of_wholeType (h : ∀ {c : Context} {ws : List Word}, c.inExtends = false →
    c.Room t.nesting → TypeLevel.whole.Follows ws →
    wholeType.ReadsRow c (t.words ++ ws) ws fun n => n.unplaced = t.tree) : t.Reads .whole := by
  intro c ws room follows
  refine .need (.withExtends (.deeper (room.mono (Nat.le_add_left ..)) ?_))
  exact h rfl room.nested follows

theorem conditional_reads {check bound whenTrue whenFalse : TypeTerm} (fits : check.Fits .union)
    (fits' : bound.Fits .union) (first : check.Reads .union) (second : bound.Reads .union)
    (third : whenTrue.Reads .whole) (fourth : whenFalse.Reads .whole) :
    (conditional check bound whenTrue whenFalse).Reads .whole := by
  refine reads_of_wholeType fun {c ws} outside room follows => ?_
  rw [nesting] at room
  have fourth := @fourth c ws (room.mono (by omega)) follows
  have third := @third c (.mark .colon ':' :: (whenFalse.words ++ ws)) (room.mono (by omega))
    (.of_kind (k := .colon) rfl (by decide))
  have second : (need .boundType).ReadsRow c (bound.words ++ .mark .question '?' ::
      (whenTrue.words ++ .mark .colon ':' :: (whenFalse.words ++ ws))) _ fun n =>
        n.unplaced = bound.tree :=
    bound_readsRow fits' second (room.mono (by omega)) (.of_kind (k := .question) rfl (by decide))
  have row : (conditional check bound whenTrue whenFalse).words ++ ws =
      check.words ++ .keyword .extendsKeyword :: (bound.words ++ .mark .question '?' ::
        (whenTrue.words ++ .mark .colon ':' :: (whenFalse.words ++ ws))) := by
    simp [words]
  rw [row]
  refine .andThen (fits.noFunction_readsRow
    (noArrow_of_kind (k := .extendsKeyword) rfl (by decide))) (.ite_neg Bool.false_ne_true ?_)
  refine .bind .here fun start _ => ?_
  refine .bind (first (room.mono (by omega)) (.of_kind (k := .extendsKeyword) rfl (by decide)))
    fun n hn => ?_
  refine .andThen (acceptExtends_pos outside rfl rfl) (.ite_pos rfl (.bind second fun m hm => ?_))
  refine .andThen (.require rfl) (.bind third fun yes hyes => .andThen (.require rfl) ?_)
  refine .bind fourth fun no hno => node_readsRow.mono fun k hk => ?_
  rw [hk, tree]
  simp [hn, hm, hyes, hno]

/-- The productions read every term, at each level at which it fits. -/
theorem Fits.reads (fits : Fits l t) : t.Reads l := by
  induction fits with
  | reference _ plain _ fits ih => exact reference_reads plain fits ih
  | word isType => exact word_reads isType
  | array _ ih => exact array_reads ih
  | indexed _ fits object index => exact indexed_reads object fits index
  | parenthesized _ ih => exact parenthesized_reads ih
  | ofPostfixed fits ih => exact postfixed_reads fits ih
  | operator isOperator _ ih => exact operator_reads isOperator ih
  | ofOperator fits ih => exact operand_reads fits ih
  | intersection fits ih => exact intersection_reads fits nofun ih
  | ofIntersection fits ih => exact single_union_reads fits ih
  | union fits ih => exact union_reads fits nofun ih
  | ofUnion fits ih =>
    exact reads_of_wholeType fun _ room follows => union_wholeType fits ih room follows
  | conditional fits fits' _ _ first second third fourth =>
    exact conditional_reads fits fits' first second third fourth

/-! ## Type aliases -/

/-- The declaration of an alias for the term. -/
def aliasText (x : String) (t : TypeTerm) : List Char :=
  "type ".toList ++ (x.toList ++ (" = ".toList ++ (t.text ++ [';'])))

def aliasWords (x : String) (t : TypeTerm) : List Word :=
  .keyword .typeKeyword :: .name x :: .mark .equals '=' :: (t.words ++ [.mark .semicolon ';'])

theorem alias_spells {x : String} (isName : IsName x) (fits : t.Fits l) :
    Spells [] (aliasText x t) (aliasWords x t) := by
  have ending : Spells [] [';'] [.mark .semicolon ';'] :=
    Spells.done.mark (by decide)
  have type := (fits.spells ending (Word.endsName_cons (by decide))).markBlank (k := .equals)
    (c := '=') (by decide)
  exact (type.nameBlank isName.word).keyword (k := .typeKeyword) (by decide)

/-- The node declares the name as an alias for the term. -/
def IsAlias (x : String) (t : TypeTerm) (n : Node) : Prop :=
  ∃ name type : Node, n.kind = .typeAliasDeclaration ∧
    n.children = [name.inRole .name, type.inRole .typeNode] ∧
    name.unplaced = nameTree x ∧ type.unplaced = t.tree

theorem typeParameters_none (noAngle : (Word.first ws).kind ≠ .lessThan) :
    typeParameters.ReadsRow c ws ws (· = ([], [])) :=
  .andThen (.accept_neg noAngle) (.ite_neg Bool.false_ne_true (.pure rfl))

theorem modifiers_none (plain : (Word.first ws).kind.isModifier = false) :
    modifiers.ReadsRow c ws ws (· = {}) := by
  rw [modifiers_eq]
  exact .loop (modifiers_over fun h => absurd h (by simp [plain]))

theorem typeAlias_readsRow {x : String} {start : Nat} {m : Modifiers} (isName : IsName x)
    (fits : t.Fits .whole) (shallow : t.nesting < maxDepth) :
    (typeAliasDeclaration start m).ReadsRow {} (aliasWords x t) [] (IsAlias x t) := by
  have type := @Fits.reads _ _ fits {} [.mark .semicolon ';']
    (fun _ => by simpa [Nat.succ_le_iff] using shallow) (.of_kind (k := .semicolon) rfl (by decide))
  refine .andThen (.require rfl) (.bind (nameTree_readsRow isName.kind) fun name hname => ?_)
  refine .andThen (typeParameters_none nofun) (.andThen (.require rfl) (.bind type fun n hn => ?_))
  refine .andThen (endStatement_readsRow rfl) (.bind .node fun k hk => .pure ?_)
  exact ⟨name, n, hk.1, hk.2.2, hname, hn⟩

theorem alias_readsRow {x : String} (isName : IsName x) (fits : t.Fits .whole)
    (shallow : t.nesting < maxDepth) :
    statement.ReadsRow {} (aliasWords x t) [] (IsAlias x t) := by
  have begins : beginsDeclaration.ReadsRow {} (aliasWords x t) (aliasWords x t) (· = true) :=
    .andThen .kind (ReadsRow.nextOnLineIs.mono fun b hb => hb.trans isName.kind)
  refine .bind .here fun start _ => .andThen .kind (.andThen begins (.ite_pos rfl ?_))
  refine .bind .here fun start _ => .bind (modifiers_none rfl) fun m _ => .andThen .kind ?_
  exact typeAlias_readsRow isName fits shallow

end Reading

end TypeTerm

/-- A term that is not nested too deeply, printed as the body of a type alias, is read back without
notes: the type of the alias has the tree of the term and of no other. -/
theorem SourceFile.type_readBack (path : String) {x : String} {t : TypeTerm} (isName : IsName x)
    (fits : t.Fits .whole) (shallow : t.nesting < Parser.maxDepth) :
    (parse path (t.aliasText x)).notes = [] ∧
      ∃ declaration name type : Node,
        (parse path (t.aliasText x)).statements = [declaration] ∧
        declaration.kind = .typeAliasDeclaration ∧
        declaration.children = [name.inRole .name, type.inRole .typeNode] ∧
        name.identifierName? = some x ∧
        ∀ u : TypeTerm, type.unplaced = u.tree ↔ u = t := by
  obtain ⟨n, statements, isAlias, notes⟩ := parse_statement path (TypeTerm.alias_spells isName fits)
    rfl (TypeTerm.alias_readsRow isName fits shallow)
  obtain ⟨name, type, kind, children, hname, htype⟩ := isAlias
  refine ⟨notes, n.inRole .statements, name, type, statements, kind, children, ?_, fun u => ?_⟩
  · exact TypeTerm.name_of_unplaced hname
  · rw [htype]
    exact ⟨fun same => (fits.eq_of_tree u same).symm, fun same => same ▸ rfl⟩

/-- Arguments that close together, an operator in front of brackets, and a conditional type that
stands behind an `extends` and so in parentheses. -/
def TypeTerm.sample : TypeTerm :=
  .conditional
    (.operator .keyOfKeyword
      (.array (.reference "Map" [] [.reference "Set" [] [.reference "a" ["T"] []]])))
    (.parenthesized (.conditional (.reference "X" [] []) (.word .anyKeyword) (.word .neverKeyword)
      (.word .voidKeyword)))
    (.union [.word .stringKeyword, .word .nullKeyword])
    (.reference "Y" [] [])

theorem TypeTerm.sample_fits : sample.Fits .whole := by
  have union {t : TypeTerm} (fits : t.Fits .postfixed) : t.Fits .union :=
    .ofIntersection (.ofOperator (.ofPostfixed fits))
  have dotted : Fits .postfixed (.reference "a" ["T"] []) :=
    .reference (by decide +kernel) (by decide +kernel) (by decide +kernel) nofun
  have set : Fits .postfixed (.reference "Set" [] [.reference "a" ["T"] []]) :=
    .reference (by decide +kernel) (by decide +kernel) nofun
      (by simpa using .ofUnion (union dotted))
  have map : Fits .postfixed
      (.reference "Map" [] [.reference "Set" [] [.reference "a" ["T"] []]]) :=
    .reference (by decide +kernel) (by decide +kernel) nofun (by simpa using .ofUnion (union set))
  have name (x : String) (mem : x ∈ ["X", "Y"]) : Fits .union (.reference x [] []) := by
    have plain : ∀ x ∈ ["X", "Y"], IsWord x ∧ Kind.ofName x = .identifier := by decide +kernel
    exact union (.reference (plain x mem).1 (plain x mem).2 nofun nofun)
  have word (k : Kind) (isType : k.isTypeWord = true) : Fits .union (.word k) :=
    union (.word isType)
  have inner := Fits.conditional (name "X" (by decide)) (word .anyKeyword rfl)
    (.ofUnion (word .neverKeyword rfl)) (.ofUnion (word .voidKeyword rfl))
  refine .conditional (.ofIntersection (.ofOperator (.operator rfl (.ofPostfixed (.array map)))))
    (union (.parenthesized inner)) (.ofUnion (.union ?_)) (.ofUnion (name "Y" (by decide)))
  simpa using ⟨.ofOperator (.ofPostfixed (.word rfl)), .ofOperator (.ofPostfixed (.word rfl))⟩

/-- The sample is read back from its text. -/
theorem SourceFile.sample_readBack : ∃ declaration name type : Node,
    (parse "a.ts" ("type S = keyof Map<Set<a.T>>[] extends (X extends any ? never : void) " ++
      "? string | null : Y;").toList).statements = [declaration] ∧
    declaration.children = [name.inRole .name, type.inRole .typeNode] ∧
    type.unplaced = TypeTerm.sample.tree := by
  have shallow : TypeTerm.sample.nesting < Parser.maxDepth := by decide +kernel
  obtain ⟨-, declaration, name, type, statements, -, children, -, only⟩ :=
    type_readBack "a.ts" (x := "S") (by decide +kernel) TypeTerm.sample_fits shallow
  exact ⟨declaration, name, type, statements, children, (only _).2 rfl⟩

end FactorySync
