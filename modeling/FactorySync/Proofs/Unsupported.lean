import FactorySync.Proofs.Placement.Files
import FactorySync.Proofs.Skipping

/-!
# Constructs outside the grammar

Where a construct outside the grammar begins (`Scanner.Opens`), and what becomes of a file that
begins with one: the construct is one node, and what follows it is read as it would be by itself.
-/

namespace FactorySync

open Parse

/-- Words that begin a construct outside the grammar wherever a statement may begin. -/
def Kind.beginsUnsupported : Kind → Bool
  | .classKeyword | .forKeyword | .whileKeyword | .doKeyword | .tryKeyword | .withKeyword
  | .debuggerKeyword | .at => true
  | _ => false

/-- Words of such constructs that modifiers may stand in front of. -/
def Kind.isConstruct : Kind → Bool
  | .classKeyword | .namespaceKeyword | .moduleKeyword | .globalKeyword => true
  | _ => false

namespace Scanner

/-- What is noted about the construct that begins with the current token. -/
def warning (r : Scanner) : Diagnostic :=
  .ofProblem r.file r.token.span (.unsupported r.token.kind.display)

/-- A modifier of such a construct stands in front of what it may modify. -/
def Modifies (r : Scanner) : Prop :=
  r.token.kind = .exportKeyword ∧ r.next.token.kind.isWord = true ∨
    r.token.kind = .defaultKeyword ∧
      (r.next.token.kind = .classKeyword ∨ r.next.token.kind = .abstractKeyword) ∨
    (r.token.kind = .declareKeyword ∨ r.token.kind = .abstractKeyword) ∧
      r.next.token.flags.afterLineBreak = false ∧ r.next.token.kind.isWord = true

/-- From modifiers, which are added to those found already, to the word behind them. -/
inductive Modified : Modifiers → Scanner → Scanner → Modifiers → Prop
  | done {m : Modifiers} {r : Scanner} (word : r.token.kind.isModifier = false) : Modified m r r m
  | more {m m' : Modifiers} {r s : Scanner} (modifies : r.Modifies)
    (rest : Modified (m.union (.ofKind r.token.kind)) r.next s m') : Modified m r s m'

/-- Behind an `import` comes a name that stands for something else, perhaps after `type`. -/
def IsImportEquals (r : Scanner) : Prop :=
  r.next.token.kind.isName = true ∧ r.next.next.token.kind = .equals ∨
    r.next.token.kind = .typeKeyword ∧ r.next.next.token.kind.isName = true ∧
      r.next.next.next.token.kind = .equals

/-- A statement begins with modifiers, if any, and the word of a construct outside the grammar. -/
inductive Opens : Scanner → Scanner → Modifiers → Prop
  | word {r : Scanner} (word : r.token.kind.beginsUnsupported = true) : Opens r r {}
  | container {r : Scanner}
    (word : r.token.kind = .namespaceKeyword ∨ r.token.kind = .moduleKeyword)
    (sameLine : r.next.token.flags.afterLineBreak = false)
    (name : r.next.token.kind.isName = true ∨ r.next.token.kind = .stringLiteral) : Opens r r {}
  | importEquals {r : Scanner} (word : r.token.kind = .importKeyword)
    (equals : r.IsImportEquals) : Opens r r {}
  | exportImport {r : Scanner} (word : r.token.kind = .exportKeyword)
    (next : r.next.token.kind = .importKeyword ∨ r.next.token.kind = .asKeyword) : Opens r r {}
  | modified {r s : Scanner} {m : Modifiers}
    (word : r.token.kind = .exportKeyword ∨ r.token.kind = .declareKeyword ∨
      r.token.kind = .abstractKeyword)
    (modified : Modified {} r s m)
    (construct : s.token.kind.isConstruct = true) : Opens r s m

/-- The word of a construct does not end the file. -/
theorem Opens.more {r s : Scanner} {m : Modifiers} (h : Opens r s m) : s.token.kind ≠ .endOfFile := by
  intro atEnd
  cases h with
  | word word => rw [atEnd] at word; cases word
  | container word => rw [atEnd] at word; cases word <;> contradiction
  | importEquals word => exact nomatch atEnd.symm.trans word
  | exportImport word => exact nomatch atEnd.symm.trans word
  | modified _ _ construct => rw [atEnd] at construct; cases construct

/-- It ends no statements either. -/
theorem Opens.goesOn {r s : Scanner} {m : Modifiers} (h : Opens r s m) :
    r.token.kind.endsBlock = false := by
  cases h with
  | word word => cases hk : r.token.kind <;> first | rfl | (rw [hk] at word; cases word)
  | container word => obtain h | h := word <;> rw [h] <;> rfl
  | importEquals word => rw [word]; rfl
  | exportImport word => rw [word]; rfl
  | modified word => obtain h | h | h := word <;> rw [h] <;> rfl

theorem Modified.ahead {m m' : Modifiers} {r s : Scanner} (h : Modified m r s m') : r.Ahead s := by
  induction h with
  | done => exact .refl
  | more _ _ ih => exact .trans (.next .refl) ih

theorem Opens.ahead {r s : Scanner} {m : Modifiers} (h : Opens r s m) : r.Ahead s := by
  cases h with
  | modified _ modified => exact modified.ahead
  | _ => exact .refl

end Scanner

namespace Parser

variable {α β : Type} {knot : Knot} {s t : State} {r r' : Scanner} {e : Nat}

/-! ## Looking at what comes next -/

section Ahead

variable (leads : knot.Leads)
include leads

theorem nextIs_run (test : Kind → Bool) : (nextIs test).run knot (s.movedTo r e) =
    some (test r.next.token.kind, s.movedTo r e) := lookAhead_run leads _ _

theorem nextOnLineIs_run (test : Kind → Bool) : (nextOnLineIs test).run knot (s.movedTo r e) =
    some (!r.next.token.flags.afterLineBreak && test r.next.token.kind, s.movedTo r e) :=
  lookAhead_run leads _ _

end Ahead

/-! ## Modifiers -/

/-- One round of reading modifiers. -/
def modifiersRound (found : Modifiers) : Parser (Modifiers ⊕ Modifiers) := do
  let word ← kind
  if word.isModifier then
    if ← isModifierHere then
      advance
      return .inl (found.union (.ofKind word))
  return .inr found

theorem modifiers_eq : modifiers = loop modifiersRound {} := rfl

theorem isModifierHere_run (leads : knot.Leads) (modifies : r.Modifies) :
    isModifierHere.run knot (s.movedTo r e) = some (true, s.movedTo r e) := by
  have word_ne {k : Kind} (isWord : r.next.token.kind.isWord = true) (other : k.isWord = false) :
      (r.next.token.kind == k) = false := beq_false_of_ne fun h => by simp [h, other] at isWord
  rw [isModifierHere, run_kind, State.movedTo_token, lookAhead_run leads, run_advance, run_kind,
    Reading.advance, Reading.token, State.movedTo_scanner]
  dsimp only
  obtain ⟨word, next⟩ | ⟨word, next⟩ | ⟨word, sameLine, next⟩ := modifies
  · rw [word]
    dsimp only
    rw [word_ne next rfl, word_ne next rfl, word_ne next rfl]
    rfl
  · rw [word]
    obtain next | next := next <;> rw [next] <;> rfl
  · have isProperty : r.next.token.kind.isPropertyWord = true := by
      rw [Kind.isPropertyWord, next, Bool.or_true]
    obtain word | word := word
    all_goals
      rw [word]
      dsimp only
      rw [run_afterLineBreak, isProperty]
      change some (!r.next.token.flags.afterLineBreak && true, _) = _
      rw [sameLine]
      rfl

/-- A word in front of what it may modify is taken. -/
theorem modifiersRound_more {m : Modifiers} (leads : knot.Leads) (modifies : r.Modifies) :
    (modifiersRound m).run knot (s.movedTo r e) =
      some (.inl (m.union (.ofKind r.token.kind)), s.movedTo r.next r.token.stop) := by
  have isModifier : r.token.kind.isModifier = true := by
    obtain ⟨word, -⟩ | ⟨word, -⟩ | ⟨word | word, -⟩ := modifies <;> rw [word] <;> rfl
  rw [modifiersRound, run_kind, State.movedTo_token]
  dsimp only
  rw [if_pos isModifier, run_eq_bind, isModifierHere_run leads modifies]
  rfl

theorem modifiers_run {m m' : Modifiers} {n : Nat} {result : Modifiers × State}
    (leads : knot.Leads) (modified : Scanner.Modified m r r' m')
    (hrun : (iterate modifiersRound n m).run knot (s.movedTo r e) = some result) :
    ∃ e', result = (m', s.movedTo r' e') := by
  induction modified generalizing n e with
  | @done m r word =>
    have ends : (modifiersRound m).run knot (s.movedTo r e) = some (.inr m, s.movedTo r e) := by
      rw [modifiersRound, run_kind, State.movedTo_token]
      dsimp only
      rw [word]
      rfl
    exact ⟨e, iterate_inr ends hrun⟩
  | more modifies rest ih =>
    obtain ⟨n, hrun⟩ := iterate_inl (modifiersRound_more leads modifies) hrun
    exact ih hrun

/-! ## From a statement to the construct -/

variable {m : Modifiers} {n : Node}

theorem declaration_opens (leads : knot.Leads) (modified : Scanner.Modified {} r r' m)
    (construct : r'.token.kind.isConstruct = true)
    (hrun : declaration.run knot (s.movedTo r e) = some (n, t)) :
    ∃ e', (unsupportedStatement r.token.start m).run knot (s.movedTo r' e') = some (n, t) := by
  rw [declaration, run_here] at hrun
  obtain ⟨m', u, hmodifiers, hrun⟩ := run_bind hrun
  rw [modifiers_eq, loop_run] at hmodifiers
  obtain ⟨e', hu⟩ := modifiers_run leads modified hmodifiers
  cases hu
  rw [run_kind, State.movedTo_token] at hrun
  unfold Kind.isConstruct at construct
  split at construct
  case h_5 => cases construct
  all_goals next word => rw [word] at hrun; exact ⟨e', hrun⟩

theorem beginsDeclaration_run (leads : knot.Leads)
    (word : r.token.kind = .namespaceKeyword ∨ r.token.kind = .moduleKeyword) :
    beginsDeclaration.run knot (s.movedTo r e) =
      some (!r.next.token.flags.afterLineBreak &&
        (r.next.token.kind.isName || r.next.token.kind == .stringLiteral), s.movedTo r e) := by
  rw [beginsDeclaration, run_kind, State.movedTo_token]
  obtain word | word := word <;> rw [word] <;> exact nextOnLineIs_run leads _

theorem isImportEquals_run (leads : knot.Leads) (equals : r.IsImportEquals) :
    isImportEquals.run knot (s.movedTo r e) = some (true, s.movedTo r e) := by
  rw [isImportEquals, lookAhead_run leads, run_advance]
  change Option.map _ ((accept .typeKeyword >>= _).run knot (s.movedTo r.next r.token.stop)) = _
  rw [run_eq_bind]
  by_cases isType : r.next.token.kind = .typeKeyword
  · have accepted : (accept .typeKeyword).run knot (s.movedTo r.next r.token.stop) =
        some (true, s.movedTo r.next.next r.next.token.stop) := by
      rw [accept, run_kind, State.movedTo_token, if_pos isType]
      rfl
    rw [accepted, Option.bind_some, run_kind, State.movedTo_token]
    dsimp only
    obtain ⟨-, next⟩ | ⟨-, name, next⟩ := equals
    · rw [next]
      rfl
    · have notEquals : r.next.next.token.kind ≠ .equals := fun h => by
        rw [h] at name
        cases name
      rw [if_neg (by simpa using notEquals), run_kind, State.movedTo_token, if_pos name, run_advance]
      change some (r.next.next.next.token.kind == .equals, _) = _
      rw [next]
      rfl
  · have accepted : (accept .typeKeyword).run knot (s.movedTo r.next r.token.stop) =
        some (false, s.movedTo r.next r.token.stop) := by
      rw [accept, run_kind, State.movedTo_token, if_neg isType]
      rfl
    rw [accepted, Option.bind_some, run_kind]
    obtain ⟨name, next⟩ | ⟨typed, -⟩ := equals
    · dsimp only
      rw [if_neg (by simp), run_kind, State.movedTo_token, if_pos name, run_advance]
      change some (r.next.next.token.kind == .equals, _) = _
      rw [next]
      rfl
    · exact absurd typed isType

theorem importStatement_run (leads : knot.Leads) (equals : r.IsImportEquals) :
    importStatement.run knot (s.movedTo r e) =
      (unsupportedStatement r.token.start {}).run knot (s.movedTo r e) := by
  have noCall : (r.next.token.kind == .openParen || r.next.token.kind == .dot) = false := by
    obtain ⟨name, -⟩ | ⟨isType, -⟩ := equals
    · cases h : r.next.token.kind <;> first | rfl | (rw [h] at name; exact nomatch name)
    · rw [isType]
      rfl
  rw [importStatement, run_here, run_eq_bind, nextIs_run leads, noCall, Option.bind_some]
  dsimp only
  rw [if_neg Bool.false_ne_true, run_eq_bind, isImportEquals_run leads equals]
  rfl

theorem nextKind_run (leads : knot.Leads) :
    (lookAhead do advance; kind).run knot (s.movedTo r e) =
      some (r.next.token.kind, s.movedTo r e) := lookAhead_run leads _ _

theorem isDefaultDeclaration_run (leads : knot.Leads)
    (next : r.next.next.token.kind = .classKeyword ∨ r.next.next.token.kind = .abstractKeyword) :
    isDefaultDeclaration.run knot (s.movedTo r e) = some (true, s.movedTo r e) := by
  rw [isDefaultDeclaration, lookAhead_run leads, run_advance, run_advance, run_kind]
  simp only [Reading.advance, Reading.token, State.movedTo]
  obtain next | next := next <;> rw [next] <;> rfl

/-- Modifiers behind an `export` stand in front of a declaration. -/
theorem exportStatement_run (leads : knot.Leads) {m₁ : Modifiers}
    (modified : Scanner.Modified m₁ r.next r' m) (construct : r'.token.kind.isConstruct = true) :
    exportStatement.run knot (s.movedTo r e) = declaration.run knot (s.movedTo r e) := by
  rw [exportStatement, run_here, run_eq_bind, nextKind_run leads, Option.bind_some]
  dsimp only
  cases modified with
  | done => 
    unfold Kind.isConstruct at construct
    split at construct
    case h_5 => cases construct
    all_goals next word => rw [word]
  | more modifies rest =>
    obtain ⟨word, next⟩ | ⟨word, next⟩ | ⟨word | word, sameLine, next⟩ := modifies
    · rw [word]
    · rw [word]
      dsimp only
      rw [run_eq_bind, isDefaultDeclaration_run leads next]
      rfl
    · rw [word]
    · rw [word]

/-- What opens a construct outside the grammar is taken for one. -/
theorem statement_opens (leads : knot.Leads) (opens : r.Opens r' m)
    (hrun : statement.run knot (s.movedTo r e) = some (n, t)) :
    ∃ e', (unsupportedStatement r.token.start m).run knot (s.movedTo r' e') = some (n, t) := by
  rw [statement, run_here, run_kind, State.movedTo_token] at hrun
  cases opens with
  | word word =>
    unfold Kind.beginsUnsupported at word
    split at word
    case h_9 => cases word
    all_goals next h => rw [h] at hrun; exact ⟨e, hrun⟩
  | container word sameLine name =>
    have begins : (!r.next.token.flags.afterLineBreak &&
        (r.next.token.kind.isName || r.next.token.kind == .stringLiteral)) = true := by
      simpa [sameLine] using name
    have declares : declaration.run knot (s.movedTo r e) = some (n, t) := by
      obtain h | h := word
      all_goals
        rw [h] at hrun
        dsimp only at hrun
        rw [run_eq_bind, beginsDeclaration_run leads (by simp [h]), begins] at hrun
        exact hrun
    refine declaration_opens leads (.done ?_) ?_ declares
    all_goals obtain word | word := word <;> rw [word] <;> rfl
  | importEquals word equals =>
    rw [word] at hrun
    exact ⟨e, (importStatement_run leads equals).symm.trans hrun⟩
  | exportImport word next =>
    rw [word] at hrun
    dsimp only at hrun
    rw [exportStatement, run_here, run_eq_bind, nextKind_run leads] at hrun
    obtain next | next := next <;> rw [next] at hrun <;> exact ⟨e, hrun⟩
  | modified word modified construct =>
    suffices declares : declaration.run knot (s.movedTo r e) = some (n, t) from
      declaration_opens leads modified construct declares
    cases modified with
    | done notModifier => obtain h | h | h := word <;> rw [h] at notModifier <;> cases notModifier
    | more modifies rest =>
    obtain ⟨h, -⟩ | ⟨h, -⟩ | ⟨isDeclare, sameLine, next⟩ := modifies
    · rw [h] at hrun
      exact (exportStatement_run leads rest construct).symm.trans hrun
    · simp [h] at word
    · have begins : beginsDeclaration.run knot (s.movedTo r e) = some (true, s.movedTo r e) := by
        rw [beginsDeclaration, run_kind, State.movedTo_token]
        obtain h | h := isDeclare
        all_goals
          rw [h]
          refine (nextOnLineIs_run leads _).trans ?_
          rw [sameLine, Kind.isPropertyWord, next, Bool.or_true]
          rfl
      obtain h | h := isDeclare
      all_goals
        rw [h] at hrun
        dsimp only at hrun
        rw [run_eq_bind, begins] at hrun
        exact hrun

/-! ## One statement -/

/-- The state behind a construct that is the first one of a file. -/
def behind (s : State) (r last : Scanner) : State :=
  { s with toReading := { scanner := last.next, lastEnd := last.token.stop, notes := [r.warning] } }

theorem need_run {goal : Goal} {k : Nat} :
    (need goal).run (Parser.knot (k + 1)) s = (produce goal).run (Parser.knot k) s := rfl

theorem oneStatement_passes {text : List Char} {stop : Kind → Bool} {k : Nat} {last : Scanner}
    (opens : r.Opens r' m) (skips : r'.next.Skips r'.token.kind last) (sound : r.Sound text)
    (first : s.notes = [])
    (hrun : (oneStatement stop).run (Parser.knot (k + 1)) (s.movedTo r e) = some (n, t)) :
    n.Passed r'.token.kind ⟨r.token.start, last.token.stop⟩ m ∧ t = behind s r' last := by
  rw [oneStatement, run_here] at hrun
  obtain ⟨n', u, hstatement, hrun⟩ := run_bind hrun
  rw [need_run] at hstatement
  obtain ⟨e', hrun'⟩ := statement_opens (knot_leads k) opens hstatement
  obtain ⟨passed, hu⟩ := unsupportedStatement_skips (s := s.movedTo r' e') opens.more skips hrun'
  have none_before : (s.movedTo r' e').notes = [] := first
  have behind_eq : u = behind s r' last := by
    have fresh : ¬ (((s.movedTo r' e').notes.head?.bind (·.span)).map (·.start) =
        some (s.movedTo r' e').here) := by
      rw [none_before]
      exact nofun
    rw [hu, Reading.note, if_neg fresh, none_before]
    rfl
  have moved : (s.movedTo r e).here ≠ u.here := by
    rw [behind_eq]
    refine Nat.ne_of_lt (Nat.lt_of_le_of_lt opens.ahead.start_le ?_)
    have more := (opens.ahead.sound sound).length_pos opens.more
    have behindWord : r'.token.stop ≤ last.next.token.start :=
      Nat.le_trans (Scanner.stop_le_next r') (Scanner.Ahead.start_le (.next skips.ahead))
    exact Nat.lt_of_lt_of_le (Nat.lt_add_of_pos_right more) behindWord
  rw [run_here, run_kind, decide_eq_false moved.symm, Bool.false_and] at hrun
  cases hrun
  exact ⟨passed, behind_eq⟩

/-- What becomes of a file when some of its statements have been found. -/
def goingOn (rounds : Nat) (found : List Node) : Parser (List Node ⊕ List Node) := do
  let found ← iterate (statementRound Kind.endsBlock) rounds found
  endRound (found.map (·.inRole .statements))

/-- The first statement of a file that begins with a construct, and how reading goes on. -/
theorem fileRound_passes {text : List Char} {k : Nat} {last : Scanner} {x : List Node ⊕ List Node}
    (opens : r.Opens r' m) (skips : r'.next.Skips r'.token.kind last) (sound : r.Sound text)
    (first : s.notes = [])
    (hrun : (fileRound []).run (Parser.knot (k + 1)) (s.movedTo r e) = some (x, t)) :
    ∃ n : Node, n.Passed r'.token.kind ⟨r.token.start, last.token.stop⟩ m ∧
      (goingOn (s.size + 1) [n]).run (Parser.knot (k + 1)) (behind s r' last) = some (x, t) := by
  rw [fileRound, statements_eq] at hrun
  obtain ⟨more, u, hmore, hrun⟩ := run_bind hrun
  obtain ⟨found, v, hfound, hmore⟩ := run_bind hmore
  cases hmore
  change (loop (statementRound Kind.endsBlock) []).run _ _ = _ at hfound
  rw [loop_run] at hfound
  obtain ⟨rounds, x', w, hrounds, hround, hrest⟩ := iterate_run hfound
  obtain rfl : s.size + 1 = rounds := by
    have := hrounds
    change s.size + 2 = rounds + 1 at this
    omega
  have opensStatement : (do return !Kind.endsBlock (← kind) : Parser Bool).run (Parser.knot (k + 1))
      (s.movedTo r e) = some (true, s.movedTo r e) := by
    show some (!r.token.kind.endsBlock, _) = _
    rw [opens.goesOn]
    rfl
  rw [statementRound, run_eq_bind, opensStatement] at hround
  obtain ⟨n, w', hone, hround⟩ := run_bind hround
  cases hround
  obtain ⟨passed, hw⟩ := oneStatement_passes opens skips sound first hone
  subst hw
  refine ⟨n, passed, ?_⟩
  rw [goingOn, run_eq_bind, hrest.2]
  exact hrun

/-- A file begins where no statement has been found. -/
theorem fileRound_run : (fileRound []).run knot s = (goingOn (s.size + 2) []).run knot s := by
  rw [fileRound, statements_eq, goingOn, run_eq_bind, run_eq_bind]
  change Option.bind (Option.bind ((loop (statementRound Kind.endsBlock) []).run knot s) _) _ = _
  rw [loop_run, run_eq_bind]
  cases (iterate (statementRound Kind.endsBlock) (s.size + 2) []).run knot s with
  | none => rfl
  | some r => rfl

theorem goingOn_alike {L : Placement} {s' : State} {before found found' : List Node}
    {rounds rounds' : Nat} (like : L.Like s s') (le : rounds ≤ rounds')
    (h : SameBehind L before found.reverse found'.reverse) :
    L.AlikeAt s s' (goingOn rounds found) (goingOn rounds' found') fun x _ x' =>
      Sum.LiftRel (SameBehind L (before.map (·.inRole .statements)))
        (SameBehind L (before.map (·.inRole .statements))) x x' := by
  refine Placement.AlikeAt.bind (Placement.AlikeAt.iterate
    (P := fun found _ found' => SameBehind L before found.reverse found'.reverse)
    (Q := fun found _ found' => SameBehind L before found found')
    (fun _ _ _ _ h like => statementRound_alike _ h like) like h le) fun found found' t t' h like => ?_
  exact endRound_alike (h.inRole _) like

/-- How a file is read to the end behind a round with a certain outcome. -/
def Finishes (k : Knot) (rounds : Nat) (w : State) (r : List Node × State) :
    List Node ⊕ List Node → Prop
  | .inl found => (iterate fileRound rounds found).run k w = some r
  | .inr found => r = (found, w)

/-- Reading a file that begins with a construct goes on behind it. -/
theorem file_passes {text : List Char} {k : Nat} {last : Scanner} {ns : List Node}
    (opens : r.Opens r' m) (skips : r'.next.Skips r'.token.kind last) (sound : r.Sound text)
    (first : s.notes = [])
    (hrun : (loop fileRound []).run (Parser.knot (k + 1)) (s.movedTo r e) = some (ns, t)) :
    ∃ (n : Node) (x : List Node ⊕ List Node) (w : State),
      n.Passed r'.token.kind ⟨r.token.start, last.token.stop⟩ m ∧
      (goingOn (s.size + 1) [n]).run (Parser.knot (k + 1)) (behind s r' last) = some (x, w) ∧
      Finishes (Parser.knot (k + 1)) (s.size + 1) w (ns, t) x := by
  rw [loop_run] at hrun
  obtain ⟨rounds, x, w, hrounds, hround, hrest⟩ := iterate_run hrun
  obtain rfl : s.size + 1 = rounds := Nat.succ.inj hrounds
  obtain ⟨n, passed, hgo⟩ := fileRound_passes opens skips sound first hround
  refine ⟨n, x, w, passed, hgo, ?_⟩
  cases x with
  | inl found => exact hrest.2
  | inr found => exact hrest

/-- What is left of a file is read as the file that holds nothing else, when one statement has been
found. -/
theorem rest_alike {L : Placement} {k k' : Knot} {s s' t t' : State} {n : Node} {ns ns' : List Node}
    {x : List Node ⊕ List Node} {w : State} {rounds : Nat} (knots : L.Knots k k')
    (like : L.Like s s') (longer : s.size + 1 ≤ s'.size)
    (hrun : (loop fileRound []).run k s = some (ns, t))
    (hround : (goingOn (s'.size + 1) [n]).run k' s' = some (x, w)) (le : s'.size + 1 ≤ rounds)
    (hrest : Finishes k' rounds w (ns', t') x) :
    SameBehind L [n.inRole .statements] ns ns' ∧ L.Like t t' := by
  rw [loop_run] at hrun
  obtain ⟨m, y, v, hm, hfirst, hmore⟩ := iterate_run hrun
  rw [fileRound_run] at hfirst
  have start : SameBehind L [n] [].reverse [n].reverse := ⟨[], .nil, rfl⟩
  obtain ⟨y', v', hround', same, like'⟩ :=
    goingOn_alike like (Nat.succ_le_succ longer) start knots hfirst
  cases hround.symm.trans hround'
  cases same with
  | inl h =>
    have le : m ≤ rounds := by omega
    obtain ⟨ns'', t'', hrest', same, like''⟩ := Placement.AlikeAt.iterate
      (P := fun found _ found' => SameBehind L [n.inRole .statements] found found')
      (Q := fun found _ found' => SameBehind L [n.inRole .statements] found found')
      (fun _ _ _ _ h like => fileRound_alike h like) like' h le knots hmore.2
    cases hrest.symm.trans hrest'
    exact ⟨same, like''⟩
  | inr h =>
    cases hmore
    cases hrest
    exact ⟨h, like'⟩

end Parser

/-! ## Files -/

namespace Scanner

/-- What the next token is depends on where the current one ends. -/
theorem next_congr {s s' : Scanner} (file : s'.file = s.file) (rest : s'.rest = s.rest)
    (stop : s'.token.stop = s.token.stop) (diagnostics : s'.diagnostics = s.diagnostics) :
    s'.next = s.next := by
  obtain ⟨_, _, _, _⟩ := s
  obtain ⟨_, _, _, _⟩ := s'
  dsimp only at file rest diagnostics
  subst file rest diagnostics
  unfold next
  dsimp only at stop ⊢
  rw [stop]
  split <;> split <;> rfl

end Scanner

/-- Without a shebang in front it does not matter whether a file begins here. -/
theorem Trivia.ofChars_eq {cs : List Char} (noShebang : ¬ ['#', '!'] <+: cs) (fileStart : Bool) :
    ofChars fileStart cs = read .between cs := by
  unfold ofChars
  split
  · exact absurd ⟨_, rfl⟩ noShebang
  · rfl

namespace SourceFile

open FactorySync.Parser Parse

variable {path : String} {u rest : List Char} {r last : Scanner} {m : Modifiers}

/-- What follows a construct is placed behind it. -/
def following (rest : List Char) (r last : Scanner) (before : r.token.start < last.token.stop) :
    Placement where
  text := rest
  distance := last.token.stop
  notes := [r.warning]
  diagnostics := last.diagnostics
  earlier d hd := ⟨r.token.span, by cases hd; rfl, before⟩
  Good _ := True
  make _ _ := trivial
  inRole _ := trivial

/-- Reading goes on behind the construct as it begins in what follows. -/
theorem following_like {s : State} (before : r.token.start < last.token.stop)
    (file : last.file = path) (rest_eq : last.rest = rest) (noShebang : ¬ ['#', '!'] <+: rest)
    (inExtends : s.inExtends = false) (depth : s.depth = 0) (size : rest.length ≤ s.size) :
    (following rest r last before).Like { toReading := firstReading path rest, size := rest.length }
      (behind s r last) where
  exact := firstReading_exact path rest
  reading := by
    have trivia (fileStart : Bool) := Trivia.ofChars_eq noShebang fileStart
    have next : last.next = (following rest r last before).scanner (Scanner.ofText path rest).next := by
      rw [← Placement.next_of_trivia ((trivia _).trans (trivia _).symm)]
      refine Scanner.next_congr file rest_eq ?_ (List.append_nil _).symm
      exact (Nat.zero_add _).symm
    show (⟨last.next, last.token.stop, [r.warning]⟩ : Reading) = _
    rw [next, ← Nat.zero_add last.token.stop]
    rfl
  inExtends := inExtends
  depth := depth
  size_le := size

theorem allowance_mono {n n' : Nat} (le : n ≤ n') : allowance n ≤ allowance n' :=
  Nat.mul_le_mul_left 8 (Nat.add_le_add_right le 2)

theorem allowance_pos (n : Nat) : ∃ k, allowance n = k + 1 := ⟨8 * n + 15, by rw [allowance]; omega⟩

/-- A warning is all that is noted about the construct, beside what the scanner finds in it. -/
theorem following_hasErrors {s t : State} (before : r.token.start < last.token.stop)
    (like : (following rest r last before).Like s t) :
    Diagnostics.hasErrors (t.notes.reverse ++ t.scanner.diagnostics) =
      (last.diagnostics.hasErrors ||
        Diagnostics.hasErrors (s.notes.reverse ++ s.scanner.diagnostics)) := by
  have moved (ds : List Diagnostic) (d : Nat) :
      (ds.map (·.moved d)).any Diagnostic.isError = ds.any Diagnostic.isError := by
    rw [List.any_map]
    rfl
  have warning : r.warning.isError = false := rfl
  rw [like.reading]
  simp only [Diagnostics.hasErrors, Placement.reading, Placement.scanner, following,
    List.any_append, List.any_reverse, moved, List.any_cons, List.any_nil, warning, Bool.or_false]
  cases last.diagnostics.any Diagnostic.isError <;> simp

/-- A file that begins with a construct outside the grammar, which ends behind `u`: the construct is
one node, and all that follows is what is found in `rest` by itself, so much further on. -/
theorem unsupported_whole (opens : (Scanner.ofText path (u ++ rest)).next.Opens r m)
    (skips : r.next.Skips r.token.kind last) (whole : last.token.stop = byteLength u)
    (noShebang : ¬ ['#', '!'] <+: rest) :
    ∃ n : Node,
      n.Passed r.token.kind ⟨(Scanner.ofText path (u ++ rest)).next.token.start, byteLength u⟩ m ∧
      (parse path (u ++ rest)).statements =
        n :: (parse path rest).statements.map (·.moved (byteLength u)) ∧
      (parse path (u ++ rest)).hasErrors =
        (last.diagnostics.hasErrors || (parse path rest).hasErrors) := by
  have sound : (Scanner.ofText path (u ++ rest)).next.Sound (u ++ rest) :=
    (firstReading_sound path (u ++ rest)).scanner
  have ahead := opens.ahead.trans (.trans (.next .refl) skips.ahead)
  have before : r.token.start < last.token.stop := by
    have more := (opens.ahead.sound sound).length_pos opens.more
    have le := Nat.le_trans (Scanner.stop_le_next r) skips.ahead.start_le
    exact Nat.lt_of_lt_of_le (Nat.lt_of_lt_of_le (Nat.lt_add_of_pos_right more) le)
      (Nat.le_add_right _ _)
  have rest_eq : last.rest = rest := (ahead.sound sound).rest.unique ⟨u, rfl, whole.symm⟩
  have file : last.file = path := ahead.file_eq.trans (Scanner.extends_next _).file
  have shorter : rest.length + 1 ≤ (u ++ rest).length := by
    have nonempty : u ≠ [] := by
      rintro rfl
      rw [whole] at before
      exact Nat.not_lt_zero _ before
    have := List.length_pos_iff.2 nonempty
    rw [List.length_append]
    omega
  have fits := Nat.le_of_succ_le shorter
  obtain ⟨ns', t', hrun', tree', notes'⟩ := parse_run path (u ++ rest)
  obtain ⟨ns, t, hrun, tree, notes⟩ := parse_run path rest
  have knots := knot_alike (L := following rest r last before) (allowance_mono fits)
  obtain ⟨k, hk⟩ := allowance_pos (u ++ rest).length
  rw [hk] at hrun' knots
  let start : State := { toReading := firstReading path (u ++ rest), size := (u ++ rest).length }
  obtain ⟨n, x, w, passed, hgo, hrest⟩ :=
    file_passes (s := start) (e := 0) opens skips sound rfl hrun'
  have like := following_like (s := start) before file rest_eq noShebang rfl rfl fits
  obtain ⟨⟨ms, same, found⟩, ends⟩ := rest_alike knots like shorter hrun hgo (Nat.le_refl _) hrest
  refine ⟨n.inRole .statements, ⟨passed.kind, passed.detail, whole ▸ passed.span, passed.modifiers⟩,
    ?_, ?_⟩
  · rw [statements, statements, tree', tree, ← whole]
    exact found.trans (congrArg (n.inRole .statements :: ·) (Placement.SameNodes.eq_map same))
  · rw [hasErrors, hasErrors, notes', notes, Diagnostics.hasErrors_sort, Diagnostics.hasErrors_sort]
    exact following_hasErrors before ends

/-- The word of a class in front of a line with a statement. -/
def classAhead : Scanner := (Scanner.ofText "t.ts" ("class A { b }".toList ++ "\nc;".toList)).next

theorem class_whole :
    classAhead.Opens classAhead {} ∧
    classAhead.next.Skips classAhead.token.kind classAhead.next.next.next.next ∧
    classAhead.next.next.next.next.token.stop = byteLength "class A { b }".toList ∧
    ¬ ['#', '!'] <+: "\nc;".toList ∧
    ∃ n : Node,
      n.Passed classAhead.token.kind ⟨classAhead.token.start, byteLength "class A { b }".toList⟩ {} ∧
      (parse "t.ts" ("class A { b }".toList ++ "\nc;".toList)).statements =
        n :: (parse "t.ts" "\nc;".toList).statements.map
          (·.moved (byteLength "class A { b }".toList)) ∧
      (parse "t.ts" ("class A { b }".toList ++ "\nc;".toList)).hasErrors =
        (classAhead.next.next.next.next.diagnostics.hasErrors ||
          (parse "t.ts" "\nc;".toList).hasErrors) := by
  have opens : classAhead.Opens classAhead {} := .word (by decide +kernel)
  have skips : classAhead.next.Skips classAhead.token.kind classAhead.next.next.next.next := by
    refine .brace (.token (by decide +kernel) (fun _ => by decide +kernel) (.nil _))
      (by decide +kernel) (.token (by decide +kernel) (fun _ => by decide +kernel) (.nil _))
      (by decide +kernel) (by decide +kernel)
  have whole : classAhead.next.next.next.next.token.stop =
      byteLength "class A { b }".toList := by decide +kernel
  have noShebang : ¬ ['#', '!'] <+: "\nc;".toList := by decide
  exact ⟨opens, skips, whole, noShebang, unsupported_whole opens skips whole noShebang⟩

/-- A loop over a conditional statement is passed over up to the first `;`, in front of `else`. -/
theorem else_left : (parse "t.ts" "\nc;".toList).hasErrors = false ∧
    (parse "t.ts" "for (;;) if (a) b; else c;\nc;".toList).statements.map (·.span) =
      [⟨0, 18⟩, ⟨19, 18⟩, ⟨27, 29⟩] := by
  decide +kernel

end SourceFile
end FactorySync
