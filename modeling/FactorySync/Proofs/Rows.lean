import FactorySync.Proofs.Unsupported
import FactorySync.Proofs.Words

/-!
# Reading rows of words

`Parser.ReadsRow p c ws rest P` says that a parser which stands in front of the words `ws` and finds
something leaves the words `rest`, notes nothing, and has found something of which `P` holds. If it
is known from elsewhere that no error is noted, the context is trusted (`Context.trusted`), and
there need not be room for what is nested. There is one rule for each combinator. Whether the parser
finds anything at all is not asked here: every file is read to its end (`SourceFile.parse_run`), so a
row of words is read as the rules say (`SourceFile.parse_statement`).
-/

namespace FactorySync

namespace Parse

/-- What reading depends on besides the words that follow. -/
structure Context where
  inExtends : Bool := false
  depth : Nat := 0
  /-- Whether nothing has been noted so far. -/
  clean : Bool := true
  /-- Whether no error is noted from here on. -/
  trusted : Bool := false
  /-- What is known of a reading that has so many words in front of it. -/
  known : Nat → Reading → Prop := fun _ _ => True
  known_advance : ∀ {n : Nat} {r : Reading}, known n r → known (n - 1) r.advance := by
    exact fun _ => trivial

/-- This many levels more are not too deep. -/
def Context.Room (c : Context) (levels : Nat) : Prop :=
  c.trusted = false → c.depth + levels ≤ Parser.maxDepth

theorem Context.Room.mono {c : Context} {m n : Nat} (h : c.Room n) (le : m ≤ n) : c.Room m :=
  fun known => Nat.le_trans (Nat.add_le_add_left le c.depth) (h known)

theorem Context.Room.nested {c : Context} {n : Nat} (h : c.Room (n + 1)) :
    { c with depth := c.depth + 1 }.Room n :=
  fun known => Nat.le_trans (Nat.le_of_eq (Nat.succ_add_eq_add_succ c.depth n)) (h known)

/-- The parser stands in front of the words, and in a clean context it has noted nothing. -/
structure State.Faces (s : State) (c : Context) (ws : List Word) : Prop where
  valid : s.Valid
  scanner : s.scanner.Faces c.clean ws
  noted : c.clean = true → s.notes = []
  inExtends : s.inExtends = c.inExtends
  depth : s.depth = c.depth
  known : c.known ws.length s.toReading

end Parse

/-- The first of the words, or what stands at the end of the text. -/
def Word.first (ws : List Word) : Word := ws.head?.getD .ending

@[simp] theorem Word.first_cons {w : Word} {ws : List Word} : Word.first (w :: ws) = w := rfl

open Parse

namespace Parser

variable {α β : Type} {c : Context} {ws mid rest : List Word}

/-- In front of `ws` the parser consumes the words up to `rest` and finds something of which `P` holds,
if it finds anything. -/
def ReadsRow (p : Parser α) (c : Context) (ws rest : List Word) (P : α → Prop) : Prop :=
  ∀ ⦃n : Nat⦄ ⦃s : State⦄ ⦃a : α⦄ ⦃t : State⦄, s.Faces c ws → p.run (knot n) s = some (a, t) →
    (c.trusted = true → t.Clean) → P a ∧ t.Faces c rest

namespace ReadsRow

variable {p : Parser α} {f : α → Parser β} {a : α} {P : α → Prop} {Q : β → Prop} {k : Kind}

protected theorem pure (h : P a) : (pure a : Parser α).ReadsRow c ws ws P := by
  intro n s b t faces hrun _
  cases (show some (a, s) = some (b, t) from hrun)
  exact ⟨h, faces⟩

protected theorem bind (hp : p.ReadsRow c ws mid P) (hf : ∀ a, P a → (f a).ReadsRow c mid rest Q) :
    (p >>= f).ReadsRow c ws rest Q := by
  intro n s b u faces hrun clean
  obtain ⟨a, t, ha, hb⟩ := run_bind hrun
  obtain ⟨found, faces⟩ := hp faces ha fun trusted =>
    ((f a).leads (knot_leads n) hb).run.clean_of (clean trusted)
  exact hf a found faces hb clean

/-- What the first parser finds is known. -/
theorem andThen (hp : p.ReadsRow c ws mid (· = a)) (hf : (f a).ReadsRow c mid rest Q) :
    (p >>= f).ReadsRow c ws rest Q :=
  .bind hp fun _ found => found ▸ hf

theorem mono {P' : α → Prop} (h : p.ReadsRow c ws rest P) (hP : ∀ a, P a → P' a) :
    p.ReadsRow c ws rest P' :=
  fun _ _ _ _ faces hrun clean => (h faces hrun clean).imp_left (hP _)

theorem ite_pos {b : Prop} [Decidable b] {q : Parser α} (isTrue : b) (h : p.ReadsRow c ws rest P) :
    (if b then p else q).ReadsRow c ws rest P := by
  rwa [if_pos isTrue]

theorem ite_neg {b : Prop} [Decidable b] {q : Parser α} (isFalse : ¬ b)
    (h : q.ReadsRow c ws rest P) : (if b then p else q).ReadsRow c ws rest P := by
  rwa [if_neg isFalse]

/-! ## Views -/

protected theorem view {g : State → α} (h : ∀ s : State, s.Faces c ws → P (g s)) :
    (view g).ReadsRow c ws ws P := by
  intro n s b t faces hrun _
  cases (show some (g s, s) = some (b, t) from hrun)
  exact ⟨h s faces, faces⟩

protected theorem token : token.ReadsRow c ws ws fun t => t.Is (Word.first ws) :=
  .view fun _ faces => faces.scanner.token

protected theorem kind : kind.ReadsRow c ws ws (· = (Word.first ws).kind) :=
  .view fun _ faces => faces.scanner.token.kind

protected theorem here : here.ReadsRow c ws ws fun _ => True := .view fun _ _ => trivial

protected theorem afterLineBreak :
    afterLineBreak.ReadsRow c ws ws (· = (Word.first ws).startsLine) :=
  .view fun _ faces => faces.scanner.token.startsLine

theorem node_eq {start : Nat} {children : List Node} :
    (node k start children).ReadsRow c ws ws fun n =>
      ∃ stop, n = { kind := k, span := ⟨start, stop⟩, children } := by
  exact .bind (.view (P := fun _ => True) fun _ _ => trivial) fun stop _ => .pure ⟨stop, rfl⟩

/-- Where the parser stands is what is known of it. -/
theorem here_known : here.ReadsRow c ws ws fun p => ∃ r, c.known ws.length r ∧ p = r.here :=
  .view fun s faces => ⟨s.toReading, faces.known, rfl⟩

theorem lastEnd_known :
    lastEnd.ReadsRow c ws ws fun p => ∃ r, c.known ws.length r ∧ p = r.lastEnd :=
  .view fun s faces => ⟨s.toReading, faces.known, rfl⟩

theorem node_known {start : Nat} {children : List Node} :
    (node k start children).ReadsRow c ws ws fun n => ∃ r, c.known ws.length r ∧
      n = { kind := k, span := ⟨start, r.lastEnd⟩, children } := by
  refine .bind lastEnd_known ?_
  rintro _ ⟨r, known, rfl⟩
  exact .pure ⟨r, known, rfl⟩

protected theorem node {start : Nat} {children : List Node} :
    (node k start children).ReadsRow c ws ws fun n => n.kind = k ∧ n.detail = .none ∧
      n.children = children := by
  refine node_eq.mono fun n hn => ?_
  obtain ⟨stop, rfl⟩ := hn
  exact ⟨rfl, rfl, rfl⟩

/-! ## Contexts -/

protected theorem nested (h : p.ReadsRow { c with depth := c.depth + 1 } ws rest P) :
    (nested p).ReadsRow c ws rest P := by
  intro n s a t faces hrun clean
  unfold nested at hrun
  dsimp only at hrun
  split at hrun
  · cases hrun
  · next b u hp =>
    have inner : State.Faces { s with depth := s.depth + 1 } { c with depth := c.depth + 1 } ws :=
      ⟨faces.valid, faces.scanner, faces.noted, faces.inExtends, congrArg (· + 1) faces.depth,
        faces.known⟩
    rw [(p.leads (knot_leads n) hp).depth] at hrun
    cases hrun
    obtain ⟨found, deep⟩ := h inner hp clean
    exact ⟨found, deep.valid, deep.scanner, deep.noted, deep.inExtends, faces.depth, deep.known⟩

protected theorem withExtends {inExtends : Bool} (h : p.ReadsRow { c with inExtends } ws rest P) :
    (withExtends inExtends p).ReadsRow c ws rest P := by
  intro n s a t faces hrun clean
  obtain ⟨⟨b, u⟩, hp, hrun⟩ := Option.map_eq_some_iff.1 hrun
  cases hrun
  have inner : State.Faces { s with inExtends } { c with inExtends } ws :=
    ⟨faces.valid, faces.scanner, faces.noted, rfl, faces.depth, faces.known⟩
  obtain ⟨found, inside⟩ := h inner hp clean
  exact ⟨found, inside.valid, inside.scanner, inside.noted, faces.inExtends, inside.depth,
    inside.known⟩

/-- What is too deep is noted as an error. -/
protected theorem deeper {p : Parser Node} {P : Node → Prop} (room : c.Room 1)
    (h : p.ReadsRow { c with depth := c.depth + 1 } ws rest P) : (deeper p).ReadsRow c ws rest P := by
  refine .andThen (.view fun s faces => faces.depth) ?_
  split
  · exact .nested h
  · next deep =>
    intro n s a t faces hrun clean
    cases known : c.trusted with
    | false => exact absurd (room known) deep
    | true =>
      have fails : (do note .nestedTooDeeply rfl; missing .unknown : Parser Node).Yields s
          fun _ _ => False := (Laid.start faces.valid).failed
      exact (fails (knot_sound n) hrun (clean known)).elim

/-! ## Moves -/

protected theorem advance : advance.ReadsRow c ws ws.tail (· = ()) := by
  intro n s u t faces hrun _
  cases (show some ((), { s with toReading := s.advance }) = some (u, t) from hrun)
  exact ⟨rfl, (Step.advance _).run.valid faces.valid, faces.scanner.next, faces.noted,
    faces.inExtends, faces.depth, List.length_tail ▸ c.known_advance faces.known⟩

/-- Only a `>` is read again. -/
theorem rescan_neg (isNot : (Word.first ws).kind ≠ .greaterThan) :
    (rescan .greaterThan).ReadsRow c ws ws (· = ()) := by
  intro n s u t faces hrun _
  cases (show some ((), { s with toReading := s.rescan .greaterThan }) = some (u, t) from hrun)
  have same : s.toReading.rescan .greaterThan = s.toReading :=
    congrArg (fun scanner => { s.toReading with scanner })
      (if_neg (faces.scanner.token.kind ▸ isNot))
  rw [same]
  exact ⟨rfl, faces⟩

theorem accept_pos (isNext : (Word.first ws).kind = k) :
    (accept k).ReadsRow c ws ws.tail (· = true) := by
  exact .andThen .kind (.ite_pos isNext (.andThen .advance (.pure rfl)))

theorem accept_neg (isNot : (Word.first ws).kind ≠ k) : (accept k).ReadsRow c ws ws (· = false) := by
  exact .andThen .kind (.ite_neg isNot (.pure rfl))

theorem expect_pos (isNext : (Word.first ws).kind = k) :
    (expect k).ReadsRow c ws ws.tail (· = true) :=
  .andThen .kind (.ite_pos isNext (.andThen .advance (.pure rfl)))

protected theorem require (isNext : (Word.first ws).kind = k) :
    (require k).ReadsRow c ws ws.tail (· = ()) :=
  .andThen (expect_pos isNext) (.pure rfl)

theorem keepIf_neg {role : MarkRole} (isNot : (Word.first ws).kind ≠ k) :
    (keepIf role k).ReadsRow c ws ws (· = []) :=
  .andThen .kind (.ite_neg isNot (.pure rfl))

theorem afterToken_pos {role : Role} {part : Parser Node} {P : Node → Prop}
    (isNext : (Word.first ws).kind = k) (h : part.ReadsRow c ws.tail rest P) :
    (afterToken k role part).ReadsRow c ws rest fun ns => ∃ n : Node, ns = [n.inRole role] ∧ P n :=
  .andThen (.accept_pos isNext) (.ite_pos rfl (.bind h fun n hn => .pure ⟨n, rfl, hn⟩))

theorem afterToken_neg {role : Role} {part : Parser Node} (isNot : (Word.first ws).kind ≠ k) :
    (afterToken k role part).ReadsRow c ws ws (· = []) :=
  .andThen (.accept_neg isNot) (.ite_neg Bool.false_ne_true (.pure rfl))

theorem skipIf_pos : (skipIf true).ReadsRow c ws ws.tail (· = ()) := .advance

theorem skipIf_neg : (skipIf false).ReadsRow c ws ws (· = ()) := .pure rfl

/-! ## Looking ahead -/

/-- What is noted while looking ahead is forgotten, so it is not known that it is no error. -/
protected theorem lookAhead (h : ∃ rest, p.ReadsRow { c with trusted := false } ws rest P) :
    (lookAhead p).ReadsRow c ws ws P := by
  obtain ⟨rest, h⟩ := h
  intro n s a t faces hrun _
  rw [lookAhead_run (knot_leads n)] at hrun
  obtain ⟨⟨b, u⟩, hp, hrun⟩ := Option.map_eq_some_iff.1 hrun
  cases hrun
  have faces' : s.Faces { c with trusted := false } ws :=
    ⟨faces.valid, faces.scanner, faces.noted, faces.inExtends, faces.depth, faces.known⟩
  exact ⟨(h faces' hp nofun).1, faces⟩

protected theorem nextIs {test : Kind → Bool} :
    (nextIs test).ReadsRow c ws ws (· = test (Word.first ws.tail).kind) :=
  .lookAhead ⟨_, .andThen .advance (.andThen .kind (.pure rfl))⟩

protected theorem nextOnLineIs {test : Kind → Bool} : (nextOnLineIs test).ReadsRow c ws ws
    (· = (!(Word.first ws.tail).startsLine && test (Word.first ws.tail).kind)) :=
  .lookAhead ⟨_, .andThen .advance (.andThen .afterLineBreak (.andThen .kind (.pure rfl)))⟩

/-! ## Goals -/

protected theorem need {goal : Goal} {P : Node → Prop} (h : (produce goal).ReadsRow c ws rest P) :
    (need goal).ReadsRow c ws rest P := by
  intro n s a t faces hrun
  cases n with
  | zero => exact nomatch hrun
  | succ n => exact h faces hrun

/-! ## Loops -/

section Loops

variable {round : α → Parser (α ⊕ β)}

/-- A loop that comes to an end without errors has had a first round without errors. -/
theorem iterate_round {knot : Knot} (hk : knot.Leads) {n : Nat} {s t : State} {b : β}
    (hrun : (iterate round n a).run knot s = some (b, t)) :
    ∃ m x u, (round a).run knot s = some (x, u) ∧ (t.Clean → u.Clean) ∧
      match x with
      | .inl a' => (iterate round m a').run knot u = some (b, t)
      | .inr b' => (b', u) = (b, t) := by
  obtain ⟨m, x, u, rfl, hround, hrest⟩ := iterate_run hrun
  refine ⟨m, x, u, hround, ?_⟩
  cases x with
  | inl a' => exact ⟨((iterate round m a').leads hk hrest.2).run.clean_of, hrest.2⟩
  | inr b' =>
    cases hrest
    exact ⟨id, rfl⟩

theorem iterate_inl (first : (round a).ReadsRow c ws mid fun x => ∃ a', x = .inl a' ∧ P a')
    (others : ∀ a', P a' → ∀ n, (iterate round n a').ReadsRow c mid rest Q) (n : Nat) :
    (iterate round n a).ReadsRow c ws rest Q := by
  intro m s b t faces hrun clean
  obtain ⟨n, x, u, hround, before, hrest⟩ := iterate_round (knot_leads m) hrun
  obtain ⟨⟨a', rfl, found⟩, faces⟩ := first faces hround (before ∘ clean)
  exact others a' found n faces hrest clean

theorem iterate_inr (only : (round a).ReadsRow c ws rest fun x => ∃ b, x = .inr b ∧ Q b) (n : Nat) :
    (iterate round n a).ReadsRow c ws rest Q := by
  intro m s b t faces hrun clean
  obtain ⟨n, x, u, hround, before, hrest⟩ := iterate_round (knot_leads m) hrun
  obtain ⟨⟨b', rfl, found⟩, faces⟩ := only faces hround (before ∘ clean)
  cases hrest
  exact ⟨found, faces⟩

protected theorem loop (h : ∀ n, (iterate round n a).ReadsRow c ws rest Q) :
    (loop round a).ReadsRow c ws rest Q :=
  fun _ _ _ _ faces hrun => h _ faces (loop_run ▸ hrun)

/-- A list with commas is read if each item is, in front of a comma and of what follows the list. -/
theorem commaList {stop : Kind → Bool} {item : Parser α} {words : β → List Word}
    {R : β → α → Prop} {items : List β} (Fits : Word → Prop) (comma : Fits (.mark .comma ','))
    (reads : ∀ b ∈ items, ∀ ws, Fits (Word.first ws) →
      stop (Word.first (words b ++ ws)).kind = false ∧ item.ReadsRow c (words b ++ ws) ws (R b))
    (fits : Fits (Word.first ws)) (stops : stop (Word.first ws).kind = true)
    (noComma : (Word.first ws).kind ≠ .comma) :
    (commaList stop item).ReadsRow c (Word.list words items ++ ws) ws (List.Forall₂ R items) := by
  suffices h : ∀ found n, (iterate (fun found => do
      if stop (← kind) then return .inr found.reverse
      let found := (← item) :: found
      if ← accept .comma then return .inl found
      else return .inr found.reverse) n found).ReadsRow c (Word.list words items ++ ws) ws
      fun as => ∃ more, as = found.reverse ++ more ∧ List.Forall₂ R items more from
    .loop fun n => (h [] n).mono fun as ⟨more, has, all⟩ => has ▸ all
  induction items with
  | nil =>
    intro found
    refine .iterate_inr (.andThen .kind (.ite_pos stops (.pure ⟨_, rfl, [], ?_, .nil⟩)))
    rw [List.append_nil]
  | cons b items ih =>
    intro found
    obtain ⟨first, others⟩ := List.forall_mem_cons.1 reads
    cases items with
    | nil =>
      obtain ⟨goesOn, first⟩ := first ws fits
      refine .iterate_inr (.andThen .kind (.ite_neg (Bool.eq_false_iff.1 goesOn) ?_))
      refine .bind first fun a ha => .andThen (.accept_neg noComma) (.ite_neg Bool.false_ne_true ?_)
      exact .pure ⟨_, rfl, [a], List.reverse_cons, .cons ha .nil⟩
    | cons b' items =>
      obtain ⟨goesOn, first⟩ := first (.mark .comma ',' :: (Word.list words (b' :: items) ++ ws)) comma
      have row : Word.list words (b :: b' :: items) ++ ws =
          words b ++ .mark .comma ',' :: (Word.list words (b' :: items) ++ ws) :=
        List.append_assoc ..
      rw [row]
      refine .iterate_inl (P := fun found' => ∃ a, found' = a :: found ∧ R b a)
        (.andThen .kind (.ite_neg (Bool.eq_false_iff.1 goesOn) (.bind first fun a ha =>
          .andThen (.accept_pos rfl) (.ite_pos rfl (.pure ⟨_, rfl, a, rfl, ha⟩))))) ?_
      rintro found' ⟨a, rfl, ha⟩ n
      refine (ih others (a :: found) n).mono fun as ⟨more, has, all⟩ => ⟨a :: more, ?_, .cons ha all⟩
      rw [has, List.reverse_cons, List.append_assoc]
      rfl

/-- Items that each stand behind an operator are read if each is, in front of the operator and of
what follows the last. -/
theorem manyWhile_accept {k : Kind} {w : Word} {item : Parser α} {words : β → List Word}
    {R : β → α → Prop} {items : List β} (Fits : Word → Prop) (isNext : w.kind = k)
    (operator : Fits w)
    (reads : ∀ b ∈ items, ∀ ws, Fits (Word.first ws) → item.ReadsRow c (words b ++ ws) ws (R b))
    (fits : Fits (Word.first ws)) (stops : (Word.first ws).kind ≠ k) :
    (manyWhile (accept k) item).ReadsRow c (items.flatMap (fun b => w :: words b) ++ ws) ws
      (List.Forall₂ R items) := by
  suffices h : ∀ found n, (iterate (fun found => do
      if ← accept k then return .inl ((← item) :: found)
      else return .inr found.reverse) n found).ReadsRow c
        (items.flatMap (fun b => w :: words b) ++ ws) ws
      fun as => ∃ more, as = found.reverse ++ more ∧ List.Forall₂ R items more from
    .loop fun n => (h [] n).mono fun as ⟨more, has, all⟩ => has ▸ all
  induction items with
  | nil =>
    intro found
    refine .iterate_inr (.andThen (.accept_neg stops) (.ite_neg Bool.false_ne_true ?_))
    exact .pure ⟨_, rfl, [], (List.append_nil _).symm, .nil⟩
  | cons b items ih =>
    intro found
    obtain ⟨first, others⟩ := List.forall_mem_cons.1 reads
    have behind : Fits (Word.first (items.flatMap (fun b => w :: words b) ++ ws)) := by
      cases items with
      | nil => exact fits
      | cons => exact operator
    rw [List.flatMap_cons, List.append_assoc]
    refine .iterate_inl (P := fun found' => ∃ a, found' = a :: found ∧ R b a)
      (.andThen (.accept_pos isNext) (.ite_pos rfl (.bind (first _ behind) fun a ha =>
        .pure ⟨_, rfl, a, rfl, ha⟩))) ?_
    rintro found' ⟨a, rfl, ha⟩ n
    refine (ih others (a :: found) n).mono fun as ⟨more, has, all⟩ => ⟨a :: more, ?_, .cons ha all⟩
    rw [has, List.reverse_cons, List.append_assoc]
    rfl

end Loops

end ReadsRow

/-! ## The end of statements -/

theorem endStatement_readsRow (semicolon : (Word.first ws).kind = .semicolon) :
    endStatement.ReadsRow c ws ws.tail (· = ()) := by
  exact .andThen .kind (.ite_pos semicolon .advance)

/-! ## Statements one after the other -/

section Statements

variable {P : Node → Prop} {Ps : List (Node → Prop)}

/-- The words up to `rest` are those of some statements, of which the properties hold. Behind none of
them tokens are passed over. -/
inductive StatementRows (c : Context) (rest : List Word) :
    List Word → List (Node → Prop) → Prop
  | done : StatementRows c rest rest []
  | statement {ws mid : List Word} {P : Node → Prop} {Ps : List (Node → Prop)}
      (begins : (Word.first ws).kind.endsBlock = false)
      (first : (oneStatement Kind.endsBlock).ReadsRow c ws mid P)
      (others : StatementRows c rest mid Ps) : StatementRows c rest ws (P :: Ps)

theorem StatementRows.rounds (ends : (Word.first rest).kind.endsBlock = true)
    (h : StatementRows c rest ws Ps) (found : List Node) (n : Nat) :
    (iterate (statementRound Kind.endsBlock) n found).ReadsRow c ws rest fun ns =>
      ∃ more, ns = found.reverse ++ more ∧ List.Forall₂ (fun P n => P n) Ps more := by
  have goesOn (b : Bool) (ws : List Word) (hb : (Word.first ws).kind.endsBlock = !b) :
      (do return !Kind.endsBlock (← kind) : Parser Bool).ReadsRow c ws ws (· = b) :=
    .andThen .kind (.pure (by rw [hb, Bool.not_not]))
  induction h generalizing found n with
  | done =>
    have round : (statementRound Kind.endsBlock found).ReadsRow c rest rest fun x =>
        x = .inr found.reverse :=
      .andThen (goesOn false rest ends) (.ite_neg Bool.false_ne_true (.pure rfl))
    exact .iterate_inr (round.mono fun x hx => ⟨_, hx, [], (List.append_nil _).symm, .nil⟩) n
  | @statement ws mid P Ps begins first _ ih =>
    have round : (statementRound Kind.endsBlock found).ReadsRow c ws mid fun x =>
        ∃ found', x = .inl found' ∧ ∃ n, found' = n :: found ∧ P n := by
      refine .andThen (goesOn true ws begins) (.ite_pos rfl ?_)
      exact .bind first fun n hn => .pure ⟨_, rfl, n, rfl, hn⟩
    refine .iterate_inl round ?_ n
    rintro _ ⟨n, rfl, hn⟩ k
    refine (ih (n :: found) k).mono fun ns ⟨more, hns, all⟩ => ⟨n :: more, ?_, .cons hn all⟩
    rw [hns, List.reverse_cons, List.append_assoc]
    rfl

/-- The statements of a block are read one after the other. -/
theorem StatementRows.readsRow (ends : (Word.first rest).kind.endsBlock = true)
    (h : StatementRows c rest ws Ps) : (statements Kind.endsBlock).ReadsRow c ws rest fun ns =>
      ∃ ms, ns = ms.map (·.inRole .statements) ∧ List.Forall₂ (fun P n => P n) Ps ms := by
  rw [statements_eq]
  refine .bind (.loop fun n => h.rounds ends [] n) fun ns found => .pure ?_
  obtain ⟨ms, hms, all⟩ := found
  exact ⟨ms, congrArg _ hms, all⟩

/-- Behind the last statement of a block nothing is passed over. -/
theorem oneStatement_readsRow (ends : (Word.first rest).kind.endsBlock = true)
    (h : statement.ReadsRow c ws rest P) :
    (oneStatement Kind.endsBlock).ReadsRow c ws rest P := by
  refine .bind .here fun start _ => .bind (.need h) fun n found => .bind .here fun now _ => ?_
  have ended : (now = start && !(Word.first rest).kind.endsBlock) = false := by
    rw [ends]
    exact Bool.and_false _
  exact .andThen .kind (.ite_neg (Bool.eq_false_iff.1 ended) (.pure found))

/-- One statement. -/
theorem singleStatement_rows (begins : (Word.first ws).kind.endsBlock = false)
    (ends : (Word.first rest).kind.endsBlock = true) (h : statement.ReadsRow c ws rest P) :
    StatementRows c rest ws [P] :=
  .statement begins (oneStatement_readsRow ends h) .done

end Statements

end Parser

namespace SourceFile

open FactorySync.Parser

variable {text : List Char} {ws : List Word}

/-- A file that is the row of words of its statements. -/
theorem parse_faces (path : String) {c : Context} {rest : List Word} {Ps : List (Node → Prop)}
    (clean : c.clean = true) (untrusted : c.trusted = false)
    (faces : State.Faces { toReading := firstReading path text, size := text.length } c ws)
    (atEnd : (Word.first rest).kind = .endOfFile) (rows : StatementRows c rest ws Ps) :
    (parse path text).notes = [] ∧ ∃ ns, (parse path text).statements =
      ns.map (·.inRole .statements) ∧ List.Forall₂ (fun P n => P n) Ps ns := by
  obtain ⟨ns, t, hrun, tree, notes⟩ := parse_run path text
  have round : (loop fileRound []).ReadsRow c ws rest fun ns =>
      ∃ ms, ns = ms.map (·.inRole .statements) ∧ List.Forall₂ (fun P n => P n) Ps ms :=
    .loop (.iterate_inr (.bind (rows.readsRow (by rw [atEnd]; rfl)) fun ns found =>
      .andThen .kind (.ite_neg (by rw [atEnd]; exact nofun) (.pure ⟨_, rfl, found⟩))))
  obtain ⟨found, left⟩ := round faces hrun fun known =>
    nomatch known.symm.trans untrusted
  refine ⟨?_, ?_⟩
  · rw [notes, left.noted clean, left.scanner.noted clean]
    exact List.mergeSort_nil
  · rwa [statements, tree]

/-- A file that is the row of words of one statement. -/
theorem parse_statement (path : String) {P : Node → Prop} (spells : Spells [] text ws)
    (begins : (Word.first ws).kind.endsBlock = false) (h : statement.ReadsRow {} ws [] P) :
    ∃ n, (parse path text).statements = [n.inRole .statements] ∧ P n ∧
      (parse path text).notes = [] := by
  have faces : State.Faces { toReading := firstReading path text, size := text.length } {} ws :=
    ⟨⟨text, firstReading_sound path text⟩, spells.faces (s := .ofText path text) fun _ => rfl,
      fun _ => rfl, rfl, rfl, trivial⟩
  obtain ⟨notes, ns, statements, all⟩ := parse_faces path rfl rfl faces rfl
    (singleStatement_rows begins rfl h)
  obtain ⟨n, ns, hn, rest, rfl⟩ := List.forall₂_cons_left_iff.1 all
  cases rest
  exact ⟨n, statements, hn, notes⟩

end SourceFile
end FactorySync
