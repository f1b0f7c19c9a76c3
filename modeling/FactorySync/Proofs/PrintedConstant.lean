import FactorySync.Proofs.PrintedFactories
import FactorySync.Proofs.StatementRows

/-!
# An exported constant is read back

The statement `export const NAME = { … } as const;` is read from its words
(`Parser.constantStatement_readsRow`). Its value is an object literal; if the words between the
braces are those of items with a comma behind each, the members are these items, and of each it is
known between which readings it stands (`ReadsItems`).
-/

namespace FactorySync

open Parse

/-- The words of items with a comma behind each. -/
def Word.commaEnded {β : Type} (words : β → List Word) (items : List β) : List Word :=
  items.flatMap fun b => words b ++ [.mark .comma ',']

theorem Word.commaEnded_cons {β : Type} (words : β → List Word) (b : β) (items : List β)
    (ws : List Word) : commaEnded words (b :: items) ++ ws =
      words b ++ .mark .comma ',' :: (commaEnded words items ++ ws) := by
  simp [commaEnded]

namespace Parser

open ReadsRow

variable {c : Context} {ws rest inside : List Word} {P : Node → Prop}

/-! ## Members with commas -/

section Items

variable {β : Type} {words : β → List Word} {R : β → Node → Prop} {items : List β}

/-- The members are items with a comma behind each, the last of which stands in front of `rest`. -/
inductive ReadsItems (c : Context) (words : β → List Word) (R : β → Node → Prop)
    (rest : List Word) : List β → List (Node × Option Nat) → Prop
  | nil : ReadsItems c words R rest [] []
  | cons {b : β} {bs : List β} {m : Node} {ms : List (Node × Option Nat)} {r s : Reading}
      (member : R b m)
      (before : c.known (Word.commaEnded words (b :: bs) ++ rest).length r)
      (starts : m.span.start = r.here)
      (behind : c.known (Word.commaEnded words bs ++ rest).length s)
      (others : ReadsItems c words R rest bs ms) :
      ReadsItems c words R rest (b :: bs) ((m.inRole .properties, some s.lastEnd) :: ms)

/-- A member starts where its words do. -/
theorem objectMember_starts (clean : c.clean = true) (h : objectMember.ReadsRow c ws rest P) :
    objectMember.ReadsRow c ws rest fun n => P n ∧ ∃ r, c.known ws.length r ∧ n.span.start = r.here := by
  intro n s a t faces hrun trusted
  obtain ⟨holds, left⟩ := h faces hrun trusted
  have reads := (objectMember_reads faces.valid (knot_sound n) hrun (noErrors clean left)).2
  exact ⟨⟨holds, s.toReading, faces.known, reads.start_eq⟩, left⟩

theorem objectMembers_readsRow (clean : c.clean = true)
    (reads : ∀ b ∈ items, ∀ ws, (Word.first (words b ++ ws)).kind.endsBlock = false ∧
      objectMember.ReadsRow c (words b ++ .mark .comma ',' :: ws) (.mark .comma ',' :: ws) (R b))
    (closes : (Word.first rest).kind = .closeBrace) :
    objectMembers.ReadsRow c (Word.commaEnded words items ++ rest) rest
      (ReadsItems c words R rest items) := by
  suffices h : ∀ found n, (iterate memberRound n found).ReadsRow c
      (Word.commaEnded words items ++ rest) rest
      fun ms => ∃ more, ms = found.reverse ++ more ∧ ReadsItems c words R rest items more from
    .loop fun n => (h [] n).mono fun ms ⟨more, hms, all⟩ => hms ▸ all
  induction items with
  | nil =>
    intro found
    refine .iterate_inr (.andThen .kind (.ite_pos ?_ (.pure ⟨_, rfl, [], ?_, .nil⟩)))
    · rw [Word.commaEnded, List.flatMap_nil, List.nil_append, closes]
      rfl
    · exact (List.append_nil _).symm
  | cons b items ih =>
    intro found
    obtain ⟨first, others⟩ := List.forall_mem_cons.1 reads
    obtain ⟨begins, member⟩ := first (Word.commaEnded words items ++ rest)
    have comma : token.ReadsRow c (.mark .comma ',' ::
        (Word.commaEnded words items ++ rest)) _ fun t =>
          ∃ s, c.known (Word.commaEnded words items ++ rest).length s ∧
            t.stop = s.lastEnd :=
      .view fun s faces => ⟨s.advance, c.known_advance faces.known, rfl⟩
    have round : (memberRound found).ReadsRow c (words b ++ .mark .comma ',' ::
        (Word.commaEnded words items ++ rest)) (Word.commaEnded words items ++ rest) fun x =>
          ∃ found', x = .inl found' ∧ ∃ m r s,
            found' = (m.inRole .properties, some s.lastEnd) :: found ∧ R b m ∧
            c.known (Word.commaEnded words (b :: items) ++ rest).length r ∧
            m.span.start = r.here ∧ c.known (Word.commaEnded words items ++ rest).length s := by
      have goesOn := (first (.mark .comma ',' :: (Word.commaEnded words items ++ rest))).1
      refine .andThen .kind (.ite_neg (by rw [goesOn]; exact Bool.false_ne_true) ?_)
      refine .bind (objectMember_starts clean member) fun m hm => ?_
      obtain ⟨holds, r, before, starts⟩ := hm
      refine .bind comma fun t ht => .andThen (.accept_pos rfl) (.ite_pos rfl (.pure ?_))
      obtain ⟨s, behind, stop⟩ := ht
      rw [← Word.commaEnded_cons] at before
      exact ⟨_, rfl, m, r, s, by rw [stop], holds, before, starts, behind⟩
    rw [Word.commaEnded_cons]
    refine .iterate_inl round ?_
    rintro found' ⟨m, r, s, rfl, hm, before, starts, behind⟩ n
    refine (ih others _ n).mono fun ms ⟨more, hms, all⟩ =>
      ⟨_ :: more, ?_, .cons hm before starts behind all⟩
    rw [hms, List.reverse_cons, List.append_assoc]
    rfl

end Items

/-! ## Values with `as const` -/

/-- The type `const`. -/
def IsConstType (n : Node) : Prop := n.unplaced = (TypeTerm.word .constKeyword).tree

/-- `literal as type` -/
def assertion (literal type : Node) (span : Span) : Node :=
  { kind := .asExpression, span
    children := [literal.inRole .expression, type.inRole .typeNode] }

theorem asConst_readsRow (brace : (Word.first ws).kind = .openBrace)
    (noArrow : (Word.first ws.tail).kind ≠ .equalsGreaterThan) (room : c.Room 2)
    (semicolon : (Word.first rest).kind = .semicolon)
    (h : objectLiteral.ReadsRow { c with depth := c.depth + 1 } ws
      (.keyword .asKeyword :: .keyword .constKeyword :: rest) P) :
    (need .assignment).ReadsRow c ws rest fun n => ∃ literal type span, P literal ∧
      IsConstType type ∧ n = assertion literal type span := by
  have begins : BeginsValue ws := ⟨.inr brace, noArrow⟩
  have operand : leftHandSide.ReadsRow { c with depth := c.depth + 1 } ws
      (.keyword .asKeyword :: .keyword .constKeyword :: rest) P := by
    refine leftHandSide_readsRow (chainHead_readsRow (begins.ne (by decide)) ?_) rfl
    refine .bind .here fun start _ => .andThen .kind ?_
    rw [brace]
    exact h
  have type : (need .type).ReadsRow { c with depth := c.depth + 1 } (.keyword .constKeyword :: rest)
      rest IsConstType :=
    TypeTerm.Fits.reads (TypeTerm.Fits.word rfl).whole room.nested (.of_kind semicolon (by decide))
  refine assignment_of_binary (room.mono (by decide)) begins (by rw [semicolon]; rfl) ?_
  rw [binary_eq]
  refine .bind .here fun start _ => .bind (.need (unary_readsRow begins rfl operand)) fun n hn => ?_
  have round : (operatorRound start 0 n).ReadsRow { c with depth := c.depth + 1 }
      (.keyword .asKeyword :: .keyword .constKeyword :: rest) rest fun x => ∃ m, x = .inl m ∧
        ∃ literal type span, P literal ∧ IsConstType type ∧ m = assertion literal type span := by
    refine .andThen (.rescan_neg nofun) (.andThen .kind (.ite_pos rfl (.ite_pos (.inl rfl) ?_)))
    refine .andThen .afterLineBreak (.ite_neg nofun (.andThen .advance (.bind type fun t ht => ?_)))
    refine .bind .node_eq fun m hm => .pure ?_
    obtain ⟨stop, rfl⟩ := hm
    exact ⟨_, rfl, n, t, _, hn, ht, rfl⟩
  exact .loop (.iterate_inl round fun m hm =>
    .iterate_inr (operatorRound_over (by rw [semicolon]; rfl) hm))

/-! ## The statement -/

/-- `name = value` -/
def binding (name value : Node) (span : Span) : Node :=
  { kind := .variableDeclaration, span
    children := [name.inRole .name, value.inRole .initializer] }

/-- `export const declaration;` -/
def exportedConstant (declaration : Node) (list whole : Span) : Node :=
  { kind := .variableStatement, span := whole, modifiers := { exported := true }
    children := [{ role := .declarationList, kind := .variableDeclarationList, span := list
                   flags := { isConst := true }, children := [declaration.inRole .declarations] }] }

/-- The statement exports a constant of the name, and its value is a literal of which `P` holds, with
the type `const`. -/
def ExportsLiteral (x : String) (P : Node → Prop) (n : Node) : Prop :=
  ∃ (name literal type : Node) (value declaration list whole : Span),
    name.unplaced = TypeTerm.nameTree x ∧ P literal ∧ IsConstType type ∧
    n = exportedConstant (binding name (assertion literal type value) declaration) list whole

section Statement

variable {x : String} {w : Word}

/-- The words from the name of the constant on. -/
def constantWords (x : String) (value rest : List Word) : List Word :=
  .name x :: .mark .equals '=' :: (value ++ .mark .semicolon ';' :: rest)

theorem variableDeclaration_readsRow (isName : IsName x)
    (h : (need .assignment).ReadsRow c (inside ++ .mark .semicolon ';' :: rest)
      (.mark .semicolon ';' :: rest) P) :
    variableDeclaration.ReadsRow c (constantWords x inside rest) (.mark .semicolon ';' :: rest)
      fun n => ∃ name value span, name.unplaced = TypeTerm.nameTree x ∧ P value ∧
        n = binding name value span := by
  have name : bindingName.ReadsRow c (constantWords x inside rest) (constantWords x inside rest).tail
      fun n => n.unplaced = TypeTerm.nameTree x := by
    refine .andThen .kind ?_
    rw [constantWords, Word.first_cons]
    have kind := isName.kind
    split
    · next brace => rw [show Kind.ofName x = _ from brace] at kind; cases kind
    · next bracket => rw [show Kind.ofName x = _ from bracket] at kind; cases kind
    · exact TypeTerm.nameTree_readsRow kind
  refine .bind .here fun start _ => .bind (.need name) fun n hn => ?_
  refine .andThen (.andThen .afterLineBreak (.ite_neg nofun (.keepIf_neg nofun))) ?_
  refine .andThen (.afterToken_neg nofun) (.bind (.afterToken_pos rfl h) fun ns hns => ?_)
  obtain ⟨value, rfl, hvalue⟩ := hns
  refine .bind .node_eq fun m hm => .pure ?_
  obtain ⟨stop, rfl⟩ := hm
  exact ⟨n, value, _, hn, hvalue, rfl⟩

theorem variableStatement_readsRow {start : Nat} {modifiers : Modifiers} (isName : IsName x)
    (h : (need .assignment).ReadsRow c (inside ++ .mark .semicolon ';' :: rest)
      (.mark .semicolon ';' :: rest) P) :
    (variableStatement start modifiers).ReadsRow c
      (.keyword .constKeyword :: constantWords x inside rest) rest fun n =>
        ∃ name value span list whole, name.unplaced = TypeTerm.nameTree x ∧ P value ∧
          n = { exportedConstant (binding name value span) list whole with modifiers } := by
  have declarations : (someByComma variableDeclaration).ReadsRow c (constantWords x inside rest)
      (.mark .semicolon ';' :: rest) fun ns => ∃ name value span,
        name.unplaced = TypeTerm.nameTree x ∧ P value ∧ ns = [binding name value span] := by
    refine .loop fun n => .iterate_inr ?_ n
    refine .bind (variableDeclaration_readsRow isName h) fun m hm => ?_
    obtain ⟨name, value, span, hname, hvalue, rfl⟩ := hm
    exact .andThen (.accept_neg nofun) (.ite_neg Bool.false_ne_true
      (.pure ⟨_, rfl, name, value, span, hname, hvalue, rfl⟩))
  refine .bind .here fun listStart _ => .andThen .kind (.andThen .advance ?_)
  refine .bind declarations fun ns hns => .bind .node_eq fun list hlist => ?_
  obtain ⟨name, value, span, hname, hvalue, rfl⟩ := hns
  obtain ⟨stop, rfl⟩ := hlist
  refine .andThen (endStatement_readsRow rfl) (.bind .node_eq fun n hn => .pure ?_)
  obtain ⟨stop', rfl⟩ := hn
  exact ⟨name, value, span, _, _, hname, hvalue, rfl⟩

/-- In front of `const` the word `export` is a modifier, and `const` is none in front of a name. -/
theorem exportModifiers_readsRow (isExport : w.kind = .exportKeyword) (isName : IsName x) :
    modifiers.ReadsRow c (w :: .keyword .constKeyword :: .name x :: ws)
      (.keyword .constKeyword :: .name x :: ws) (· = { exported := true }) := by
  have marks : isModifierHere.ReadsRow c (w :: .keyword .constKeyword :: .name x :: ws)
      (w :: .keyword .constKeyword :: .name x :: ws) (· = true) := by
    refine .andThen .kind (.lookAhead ⟨.keyword .constKeyword :: .name x :: ws,
      .andThen .advance (.andThen .kind ?_)⟩)
    rw [Word.first_cons, isExport]
    exact .pure rfl
  have noEnum : (Word.first (.name x :: ws)).kind ≠ .enumKeyword := fun isEnum => by
    have kind := isName.kind
    rw [show Kind.ofName x = _ from isEnum] at kind
    cases kind
  have round : (modifiersRound {}).ReadsRow c (w :: .keyword .constKeyword :: .name x :: ws)
      (.keyword .constKeyword :: .name x :: ws) fun m =>
        ∃ found, m = .inl found ∧ found = { exported := true } := by
    refine .andThen .kind ?_
    rw [Word.first_cons, isExport]
    exact .ite_pos rfl (.andThen marks (.ite_pos rfl (.andThen .advance (.pure ⟨_, rfl, rfl⟩))))
  rw [modifiers_eq]
  refine .loop (.iterate_inl round ?_)
  rintro _ rfl n
  exact TypeTerm.modifiers_over (fun _ => TypeTerm.isModifierHere_const rfl noEnum) n

/-- The words of the literal, with the type and the rest behind them. -/
def assertedWords (literal rest : List Word) : List Word :=
  literal ++ .keyword .asKeyword :: .keyword .constKeyword :: .mark .semicolon ';' :: rest

/-- The words of the statement, which begins with `export`. -/
def exportWords (w : Word) (x : String) (literal rest : List Word) : List Word :=
  w :: .keyword .constKeyword :: .name x :: .mark .equals '=' :: assertedWords literal rest

theorem constantStatement_readsRow (isName : IsName x) (isExport : w.kind = .exportKeyword)
    (brace : (Word.first (assertedWords inside rest)).kind = .openBrace)
    (noArrow : (Word.first (assertedWords inside rest).tail).kind ≠ .equalsGreaterThan)
    (room : c.Room 2)
    (h : objectLiteral.ReadsRow { c with depth := c.depth + 1 } (assertedWords inside rest)
      (.keyword .asKeyword :: .keyword .constKeyword :: .mark .semicolon ';' :: rest) P) :
    statement.ReadsRow c (exportWords w x inside rest) rest (ExportsLiteral x P) := by
  have value := asConst_readsRow brace noArrow room rfl h
  have row : exportWords w x inside rest = w :: .keyword .constKeyword ::
      constantWords x (inside ++ [.keyword .asKeyword, .keyword .constKeyword]) rest := by
    simp [exportWords, constantWords, assertedWords]
  have same : assertedWords inside rest =
      (inside ++ [.keyword .asKeyword, .keyword .constKeyword]) ++ .mark .semicolon ';' :: rest := by
    simp [assertedWords]
  rw [same] at value
  rw [row]
  have declared : declaration.ReadsRow c (w :: .keyword .constKeyword ::
      constantWords x (inside ++ [.keyword .asKeyword, .keyword .constKeyword]) rest) rest
      (ExportsLiteral x P) := by
    refine .bind .here fun start _ => .andThen (exportModifiers_readsRow isExport isName) ?_
    refine .andThen .kind ((variableStatement_readsRow isName value).mono fun n hn => ?_)
    obtain ⟨name, value, span, list, whole, hname, ⟨literal, type, asserted, hliteral, htype, rfl⟩,
      rfl⟩ := hn
    exact ⟨name, literal, type, asserted, span, list, whole, hname, hliteral, htype, rfl⟩
  have next : (lookAhead (do advance; kind)).ReadsRow c (w :: .keyword .constKeyword ::
      constantWords x (inside ++ [.keyword .asKeyword, .keyword .constKeyword]) rest) _
      (· = .constKeyword) :=
    .lookAhead ⟨_, .andThen .advance .kind⟩
  refine .bind .here fun start _ => .andThen .kind ?_
  rw [Word.first_cons, isExport]
  exact .bind .here fun start _ => .andThen next declared

end Statement

end Parser
end FactorySync
