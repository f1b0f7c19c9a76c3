import FactorySync.Proofs.Grammar.Types
import FactorySync.Proofs.LiteralEntries

/-!
# Type guards are entries

Beside its factories a target holds methods that are written by hand. Those of the files that runs
are made for are type guards (`GuardTerm`): a guard tells by the kind of its parameter, the type of
which is a literal with one optional property, whether it is a structure of that kind. A guard on
lines of its own is an entry of a literal (`GuardTerm.Fits.entry_readable`), so it is among what is
read and kept.
-/

namespace FactorySync

open Parse

namespace Parser

open ReadsRow

variable {c : Context} {ws mid rest inside : List Word} {P : Node → Prop} {x : String} {T : Node}

/-! ## Kept marks -/

theorem keep_readsRow {role : MarkRole} : (keep role).ReadsRow c ws ws.tail fun m =>
    m.unplaced = { role, kind := (Word.first ws).kind, span := .empty 0 } := by
  refine .bind .token fun t ht => .andThen .advance (.pure ?_)
  rw [Mark.unplaced, ht.kind]

theorem keepIf_pos {role : MarkRole} {k : Kind} (isNext : (Word.first ws).kind = k) :
    (keepIf role k).ReadsRow c ws ws.tail fun ms =>
      ms.map (·.unplaced) = [{ role, kind := k, span := .empty 0 }] :=
  .andThen .kind (.ite_pos isNext (.bind keep_readsRow fun m hm => .pure (by simp [hm, isNext])))

/-! ## Types that begin with a brace -/

theorem noFunction_of_brace (brace : (Word.first ws).kind = .openBrace) :
    beginsFunctionType.ReadsRow c ws ws (· = false) := by
  refine .andThen .kind ?_
  rw [brace]
  exact .pure rfl

theorem joinedTypes_of_brace {op joined : Kind} {member : Parser Node}
    (brace : (Word.first ws).kind = .openBrace) (noBrace : op ≠ .openBrace)
    (notBehind : (Word.first rest).kind ≠ op) (h : member.ReadsRow c ws rest P) :
    (joinedTypes op joined member).ReadsRow c ws rest P := by
  refine .bind .here fun start _ => .andThen (.accept_neg (brace ▸ noBrace.symm)) ?_
  refine .bind (.andThen (noFunction_of_brace brace) (.ite_neg Bool.false_ne_true h)) fun n hn => ?_
  exact .andThen .kind (.ite_neg notBehind (.pure hn))

/-- What begins with the brace is the whole type. -/
theorem type_of_brace (room : c.Room 1) (brace : (Word.first ws).kind = .openBrace)
    (follows : TypeLevel.whole.Follows rest)
    (h : primaryType.ReadsRow { c with inExtends := false, depth := c.depth + 1 } ws rest P) :
    (need .type).ReadsRow c ws rest P := by
  have noBracket := follows.ne (k := .openBracket) (by decide)
  have postfixed : postfixType.ReadsRow { c with inExtends := false, depth := c.depth + 1 } ws rest
      P := by
    rw [TypeTerm.postfixType_eq]
    refine .bind .here fun start _ => .bind h fun n hn => .loop (.iterate_inr ?_)
    refine .andThen .afterLineBreak (.andThen .kind (.ite_neg ?_ (.pure ⟨n, rfl, hn⟩)))
    simpa using fun _ => noBracket
  have operand : typeOperand.ReadsRow { c with inExtends := false, depth := c.depth + 1 } ws rest
      P := by
    refine .bind .here fun start _ => .andThen .kind ?_
    rw [brace]
    exact postfixed
  have needed : (need .typeOperand).ReadsRow { c with inExtends := false, depth := c.depth + 1 } ws
      rest P := .need operand
  have union : unionType.ReadsRow { c with inExtends := false, depth := c.depth + 1 } ws rest P :=
    joinedTypes_of_brace brace nofun (follows.ne (by decide))
      (joinedTypes_of_brace brace nofun (follows.ne (by decide)) needed)
  refine .need (.withExtends (.deeper room ?_))
  refine .andThen (noFunction_of_brace brace) (.ite_neg Bool.false_ne_true ?_)
  refine .bind .here fun start _ => .bind union fun n hn => ?_
  exact .andThen (TypeTerm.acceptExtends_neg (follows.ne (by decide)))
    (.ite_neg Bool.false_ne_true (.pure hn))

/-! ## Type literals -/

/-- Nothing is passed over behind a member that has a token. -/
theorem separatedMember_readsRow (clean : c.clean = true)
    (begins : (Word.first ws).kind.endsBlock = false)
    (alone : (Word.first rest).kind ≠ .semicolon ∧ (Word.first rest).kind ≠ .comma)
    (h : typeMember.ReadsRow c ws rest P) : separatedMember.ReadsRow c ws rest P := by
  intro n s a t faces hrun trusted
  rw [separatedMember, run_here] at hrun
  obtain ⟨found, u, hmember, behind⟩ := run_bind hrun
  obtain ⟨holds, left⟩ := h faces hmember fun known =>
    (Parser.leads _ (knot_leads n) behind).run.clean_of (trusted known)
  have lt := typeMember_reads.advances clean faces begins left hmember
  have next : u.token.kind = (Word.first rest).kind := left.scanner.token.kind
  rw [run_kind, if_neg (by rw [next]; exact not_or.2 alone), run_here,
    if_neg (Nat.ne_of_gt lt)] at behind
  cases (show some (found, u) = some (a, t) from behind)
  exact ⟨holds, left⟩

/-- `{ member }` -/
def typeLiteralTree (member : Node) : Node :=
  { kind := .typeLiteral, span := .empty 0, children := [member.inRole .members] }

theorem typeLiteral_readsRow (clean : c.clean = true)
    (begins : (Word.first inside).kind = .identifier)
    (member : typeMember.ReadsRow c inside (.mark .closeBrace '\x7d' :: rest)
      fun n => n.unplaced = T) :
    primaryType.ReadsRow c (.mark .openBrace '\x7b' :: inside) rest
      fun n => n.unplaced = typeLiteralTree T := by
  have goesOn : (Word.first inside).kind.endsBlock = false := by rw [begins]; rfl
  have unmapped : isMappedType.ReadsRow c (.mark .openBrace '\x7b' :: inside)
      (.mark .openBrace '\x7b' :: inside) (· = false) := by
    refine .lookAhead ⟨inside, .andThen .advance (.andThen .kind ?_)⟩
    rw [List.tail_cons, begins]
    refine .ite_neg (by decide) (.ite_neg (by decide) ?_)
    refine .andThen (.accept_neg (by rw [begins]; nofun)) (.ite_neg Bool.false_ne_true (.pure rfl))
  have more (b : Bool) (ws : List Word) (hb : (Word.first ws).kind.endsBlock = !b) :
      (do return !(← kind).endsBlock : Parser Bool).ReadsRow c ws ws (· = b) :=
    .andThen .kind (.pure (by rw [hb, Bool.not_not]))
  have alone : (Word.first (.mark .closeBrace '\x7d' :: rest)).kind ≠ .semicolon ∧
      (Word.first (.mark .closeBrace '\x7d' :: rest)).kind ≠ .comma := ⟨nofun, nofun⟩
  have round := separatedMember_readsRow clean goesOn alone member
  have list : (manyWhile (do return !(← kind).endsBlock) separatedMember).ReadsRow c inside
      (.mark .closeBrace '\x7d' :: rest) fun ns => ∃ n : Node, ns = [n] ∧ n.unplaced = T := by
    refine .loop (.iterate_inl (P := fun ns => ∃ n : Node, ns = [n] ∧ n.unplaced = T)
      (.andThen (more true inside goesOn) (.ite_pos rfl (.bind round fun n hn =>
        .pure ⟨_, rfl, n, rfl, hn⟩))) ?_)
    rintro _ ⟨n, rfl, hn⟩
    exact .iterate_inr (.andThen (more false _ rfl) (.ite_neg Bool.false_ne_true
      (.pure ⟨_, rfl, n, rfl, hn⟩)))
  have members : typeMembers.ReadsRow c (.mark .openBrace '\x7b' :: inside) rest fun ns =>
      ∃ n : Node, ns = [n.inRole .members] ∧ n.unplaced = T := by
    rw [typeMembers_eq]
    refine .andThen (.require rfl) (.bind list fun ns hns => .andThen (.require rfl) (.pure ?_))
    obtain ⟨n, rfl, hn⟩ := hns
    exact ⟨n, rfl, hn⟩
  refine .bind .here fun start _ => .andThen .kind (.ite_neg Bool.false_ne_true ?_)
  refine .andThen unmapped (.ite_neg Bool.false_ne_true (.bind members fun ns hns => ?_))
  obtain ⟨n, rfl, hn⟩ := hns
  refine TypeTerm.node_readsRow.mono fun m hm => ?_
  rw [hm]
  simp [typeLiteralTree, hn]

/-- `x?: T` -/
def optionalPropertyTree (x : String) (type : Node) : Node :=
  { kind := .propertySignature, span := .empty 0
    marks := [{ role := .question, kind := .question, span := .empty 0 }]
    children := [(TypeTerm.nameTree x).inRole .name, type.inRole .declaredType] }

theorem optionalProperty_readsRow (plain : Kind.ofName x = .identifier)
    (type : (need .type).ReadsRow c inside rest fun n => n.unplaced = T) :
    typeMember.ReadsRow c (.name x :: .mark .question '?' :: .mark .colon ':' :: inside) rest
      fun n => n.unplaced = optionalPropertyTree x T := by
  have isName : (Word.name x).kind = .identifier := plain
  have unmodified : modifiers.ReadsRow c (.name x :: .mark .question '?' :: .mark .colon ':' :: inside)
      (.name x :: .mark .question '?' :: .mark .colon ':' :: inside) (· = {}) :=
    TypeTerm.modifiers_none (by simp [isName, Kind.isModifier])
  have noIndex : isIndexSignature.ReadsRow c
      (.name x :: .mark .question '?' :: .mark .colon ':' :: inside)
      (.name x :: .mark .question '?' :: .mark .colon ':' :: inside) (· = false) :=
    .lookAhead ⟨_, .andThen .advance (.andThen .kind (.ite_neg Bool.false_ne_true (.pure rfl)))⟩
  refine .bind .here fun start _ => .andThen .kind ?_
  refine .ite_neg (by simp [isName]) (.andThen .nextIs (.ite_neg (by simp [isName]) ?_))
  refine .andThen unmodified (.andThen .kind (.andThen noIndex (.ite_neg (by simp) ?_)))
  have noAccessor : ((Word.name x).kind == .getKeyword || (Word.name x).kind == .setKeyword) = false := by
    rw [isName]
    rfl
  refine .andThen .kind (.andThen .nextIs ?_)
  rw [Word.first_cons, noAccessor]
  refine .andThen .skipIf_neg (.bind (propertyName_readsRow (Kind.isPropertyWord_ofName x))
    fun name hname => .bind (keepIf_pos rfl) fun marks hmarks => ?_)
  refine .andThen .kind (.ite_neg (by simp [Word.mark]) (.bind (.afterToken_pos rfl type) fun ns hns => ?_))
  obtain ⟨m, rfl, hm⟩ := hns
  refine .bind .node_eq fun k hk => .pure ?_
  obtain ⟨stop, rfl⟩ := hk
  rw [Node.unplaced_mk]
  simp [hname, hm, hmarks, optionalPropertyTree, Detail.unplaced, Word.name]

/-! ## Comparisons -/

/-- `left === right` -/
def comparisonTree (left right : Node) : Node :=
  { kind := .binaryExpression, span := .empty 0
    marks := [{ role := .operator, kind := .equalsEqualsEquals, span := .empty 0 }]
    children := [left.inRole .left, right.inRole .right] }

theorem comparison_readsRow {L R : Node} (room : c.Room 1) (begins : BeginsValue ws)
    (begins' : BeginsValue mid) (ends : (Word.first rest).kind.endsValue = true)
    (left : leftHandSide.ReadsRow { c with depth := c.depth + 1 } ws (.identical :: mid)
      fun n => n.unplaced = L)
    (right : leftHandSide.ReadsRow { c with depth := c.depth + 1 } mid rest
      fun n => n.unplaced = R) :
    (need .assignment).ReadsRow c ws rest fun n => n.unplaced = comparisonTree L R := by
  have second : (need (.binary 7)).ReadsRow { c with depth := c.depth + 1 } mid rest
      fun n => n.unplaced = R := .need (binary_readsRow 7 begins' ends right)
  refine assignment_of_binary room begins ends ?_
  rw [binary_eq]
  refine .bind .here fun start _ => .bind (.need (unary_readsRow begins rfl left)) fun n hn => ?_
  refine .loop (.iterate_inl (P := fun m => m.unplaced = comparisonTree L R) ?_
    fun m hm => .iterate_inr (operatorRound_over ends hm))
  refine .andThen (.rescan_neg nofun) (.andThen .kind (.ite_pos rfl (.ite_neg nofun ?_)))
  refine .bind keep_readsRow fun mark hmark => .bind second fun m hm => ?_
  refine .bind .node_eq fun k hk => .pure ⟨_, rfl, ?_⟩
  obtain ⟨stop, rfl⟩ := hk
  rw [Node.unplaced_mk]
  simp [hn, hm, hmark, comparisonTree, Detail.unplaced]
  rfl

end Parser

/-! ## Guards -/

/-- A type guard: a method that tells by a property of its parameter whether it is of one kind. -/
structure GuardTerm where
  name : String
  parameter : String
  property : String
  enum : String
  kind : String

namespace GuardTerm

open FactorySync.Parser

variable {t : GuardTerm} {c : Context} {tail cs : List Char} {ws : List Word}

/-- The words from the type of the parameter on. -/
def typeWords (t : GuardTerm) (ws : List Word) : List Word :=
  .mark .openBrace '\x7b' :: .name t.property :: .mark .question '?' :: .mark .colon ':' ::
    .name t.enum :: .mark .closeBrace '\x7d' :: ws

/-- The words of what is returned. -/
def valueWords (t : GuardTerm) (ws : List Word) : List Word :=
  .name t.parameter :: .mark .dot '.' :: .name t.property :: .identical :: .name t.enum ::
    .mark .dot '.' :: .name t.kind :: ws

/-- The words of the body. -/
def bodyWords (t : GuardTerm) (ws : List Word) : List Word :=
  .mark .openBrace '\x7b' :: (Word.keyword .returnKeyword).onNewLine ::
    t.valueWords (.mark .semicolon ';' :: (Word.mark .closeBrace '\x7d').onNewLine :: ws)

/-- The words behind the name. -/
def others (t : GuardTerm) (ws : List Word) : List Word :=
  .mark .openParen '(' :: .name t.parameter :: .mark .colon ':' :: t.typeWords
    (.mark .closeParen ')' :: .mark .colon ':' :: .keyword .booleanKeyword :: t.bodyWords ws)

/-- `\x7b property?: enum \x7d` -/
def parameterType (t : GuardTerm) : Node :=
  typeLiteralTree (optionalPropertyTree t.property (TypeTerm.reference t.enum [] []).tree)

/-- `parameter.property === enum.kind` -/
def value (t : GuardTerm) : Node :=
  comparisonTree (accessTree t.parameter t.property) (accessTree t.enum t.kind)

/-- The method. -/
def tree (t : GuardTerm) : Node :=
  methodTree t.name
    [(parameterTree t.parameter t.parameterType).inRole .parameters,
      (TypeTerm.word .booleanKeyword).tree.inRole .returnType]
    (returnTree t.value)

/-- The text of a guard, with these gaps in front of its statement and behind it. -/
def text (t : GuardTerm) (inside behind : List Char) : List Char :=
  t.name.toList ++ ('(' :: (t.parameter.toList ++ (": \x7b ".toList ++ (t.property.toList ++
    ("?: ".toList ++ (t.enum.toList ++ (" \x7d): boolean \x7b".toList ++ (inside ++
      ("return ".toList ++ (t.parameter.toList ++ ('.' :: (t.property.toList ++ (" === ".toList ++
        (t.enum.toList ++ ('.' :: (t.kind.toList ++ (';' :: (behind ++ ['\x7d']))))))))))))))))))

/-- The names are no keywords. -/
structure Fits (t : GuardTerm) : Prop where
  word : IsWord t.name
  parameter : IsPlain t.parameter
  property : IsPlain t.property
  enum : IsPlain t.enum
  kind : IsWord t.kind

namespace Fits

theorem value_readsRow (fits : t.Fits) (room : c.Room 1) :
    (need .assignment).ReadsRow c (t.valueWords (.mark .semicolon ';' :: ws))
      (.mark .semicolon ';' :: ws) fun n => n.unplaced = t.value := by
  have begins {x : String} (plain : Kind.ofName x = .identifier) {y : String} (ws : List Word) :
      BeginsValue (.name x :: .mark .dot '.' :: .name y :: ws) := ⟨.inl plain, nofun⟩
  exact comparison_readsRow room (begins fits.parameter.kind _) (begins fits.enum.kind _) rfl
    (access_readsRow fits.parameter.kind rfl) (access_readsRow fits.enum.kind rfl)

theorem type_readsRow (fits : t.Fits) (clean : c.clean = true) (room : c.Room 2)
    (follows : TypeLevel.whole.Follows ws) :
    (need .type).ReadsRow c (t.typeWords ws) ws fun n => n.unplaced = t.parameterType := by
  have fitsType : TypeTerm.Fits .whole (.reference t.enum [] []) :=
    .ofName fits.enum.word fits.enum.kind nofun
  have type := @TypeTerm.Fits.reads _ _ fitsType
    { c with inExtends := false, depth := c.depth + 1 } (.mark .closeBrace '\x7d' :: ws)
    room.nested (.of_kind (k := .closeBrace) rfl (by decide))
  rw [TypeTerm.words_reference] at type
  exact type_of_brace (room.mono (by decide)) rfl follows
    (typeLiteral_readsRow clean fits.property.kind (optionalProperty_readsRow fits.property.kind type))

theorem readsRow (fits : t.Fits) (clean : c.clean = true) (room : c.Room 3) :
    objectMember.ReadsRow c ((Word.name t.name).onNewLine :: t.others ws) ws
      fun n => n.unplaced = t.tree := by
  have result : (need .type).ReadsRow c (.keyword .booleanKeyword :: t.bodyWords ws) (t.bodyWords ws)
      fun n => n.unplaced = (TypeTerm.word .booleanKeyword).tree :=
    TypeTerm.Fits.reads (TypeTerm.Fits.word rfl).whole (room.mono (by decide))
      (.of_kind (k := .openBrace) rfl (by decide))
  let behind := .mark .closeParen ')' :: .mark .colon ':' :: .keyword .booleanKeyword :: t.bodyWords ws
  have type : (need .type).ReadsRow c (t.typeWords behind) behind
      fun n => n.unplaced = t.parameterType :=
    fits.type_readsRow clean (room.mono (by decide)) (.of_kind (k := .closeParen) rfl (by decide))
  have begins : BeginsValue (t.valueWords (.mark .semicolon ';' ::
      (Word.mark .closeBrace '\x7d').onNewLine :: ws)) := ⟨.inl fits.parameter.kind, nofun⟩
  have returns := return_readsRow begins rfl (fits.value_readsRow (room.mono (by decide)))
  have body : requiredBody.ReadsRow c (t.bodyWords ws) ws fun ns => ∃ n m : Node,
      ns = [n.inRole .body] ∧ _ ∧ n.unplaced = blockTree m.unplaced :=
    requiredBody_readsRow rfl rfl rfl returns
  refine (method_readsRow rfl (signature_readsRow fits.parameter.kind rfl type result) body).mono ?_
  rintro n ⟨m, ⟨k, hk, hm⟩, same⟩
  rw [same, hm, hk]
  rfl

theorem spells (fits : t.Fits) {inside behind : List Char} (first : Trivia.Passes inside true)
    (second : Trivia.Passes behind true) (h : Spells tail cs ws) :
    Spells tail (t.text inside behind ++ ',' :: cs)
      (.name t.name :: (t.others [] ++ .mark .comma ',' :: ws)) := by
  have closed := Spells.line second (Word.before_alone (k := .closeBrace) (c := '\x7d') (by decide))
    (h.mark (k := .comma) (c := ',') (by decide))
  have right := TypeTerm.dots_spell (List.forall_mem_singleton.2 fits.kind)
    (closed.mark (k := .semicolon) (c := ';') (by decide)) (Word.endsName_cons (by decide))
  have compared := (Spells.word rfl Word.before_identical
    (right.name fits.enum.word (Word.endsName_cons (by decide))).blank).blank
  have left := TypeTerm.dots_spell (List.forall_mem_singleton.2 fits.property.word) compared
    (Word.endsName_cons (by decide))
  have value := left.name fits.parameter.word (Word.endsName_cons (by decide))
  have returned := Spells.line first (Word.before_keyword (k := .returnKeyword) (by decide)
    (Word.endsName_cons (by decide))) value.blank
  have body := (returned.mark (k := .openBrace) (c := '\x7b') (by decide)).keyword
    (k := .booleanKeyword) (by decide)
  have close := ((body.markBlank (k := .colon) (c := ':') (by decide)).mark (k := .closeParen)
    (c := ')') (by decide)).mark (k := .closeBrace) (c := '\x7d') (by decide)
  have colon := (close.nameBlank fits.enum.word).markBlank (k := .colon) (c := ':') (by decide)
  have question := Spells.word rfl Word.before_colon colon
  have type := ((question.name fits.property.word (Word.endsName_cons (by decide))).blank.mark
    (k := .openBrace) (c := '\x7b') (by decide)).markBlank (k := .colon) (c := ':') (by decide)
  have parameter := (type.name fits.parameter.word (Word.endsName_cons (by decide))).mark
    (k := .openParen) (c := '(') (by decide)
  have all := parameter.name fits.word (Word.endsName_cons (by decide))
  simpa [text, others, typeWords, bodyWords, valueWords, Word.identical, Word.keyword,
    Kind.wordText?, Kind.reservedText?, Kind.contextualText?, Word.mark] using all

/-- A guard begins with its name. -/
theorem begins (fits : t.Fits) (inside behind cs : List Char) (fileStart : Bool) :
    Trivia.ofChars fileStart (t.text inside behind ++ cs) = {} := by
  rw [text, List.append_assoc]
  exact (Word.before_name fits.word (Word.endsName_cons (by decide))).trivia fileStart

end Fits

/-- A guard, with these gaps in front of it, in front of its statement and behind that. -/
def entry (t : GuardTerm) (lead inside behind : List Char) : Entry where
  lead
  code := t.text inside behind
  first := .name t.name
  others := t.others []
  tree := t.tree

theorem Fits.entry_readable {lead inside behind : List Char} {b : Bool} (fits : t.Fits)
    (front : Trivia.Passes lead b) (first : Trivia.Passes inside true)
    (second : Trivia.Passes behind true) : (t.entry lead inside behind).Readable where
  lead := ⟨b, front⟩
  begins := fits.begins inside behind
  spells := fits.spells first second
  first := Kind.ofName_begins t.name
  reads _ clean room :=
    (fits.readsRow clean (room.mono (by decide : 3 ≤ Entry.room))).mono fun _ hn =>
      Node.outline_of_unplaced hn

end GuardTerm
end FactorySync
