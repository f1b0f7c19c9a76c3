import FactorySync.Proofs.Answers
import FactorySync.Proofs.Tiling
import FactorySync.Proofs.TokenStream

/-!
# Operands

What the operands of binary expressions are like and where they lie (`Spans`), whatever errors the
text has. A unary expression is none of the looser kinds, begins with the token at which it was asked
for and ends with the last token that was consumed for it (`UnaryAt`, `unary_unaryAt`). Only the
`async` of a function expression is left in front of it, and only where nothing was found is nothing
consumed.
-/

namespace FactorySync

open Parse

/-! ## Strengths -/

namespace Kind

theorem strength?_le {k : Kind} {p : Nat} (h : k.strength? = some p) : p ≤ 12 := by
  unfold strength? at h
  split at h <;> first | cases h; decide | cases h

theorem strength?_eq_twelve {k : Kind} : k.strength? = some 12 ↔ k = .asteriskAsterisk := by
  constructor
  · intro h
    unfold strength? at h
    split at h <;> first | rfl | cases h
  · rintro rfl
    rfl

/-- Whether an expression of this kind may stand beside an operator that has no other operators. -/
def isUnary (k : Kind) : Bool :=
  !(k == .binaryExpression || k == .conditionalExpression || k == .arrowFunction)

theorem isUnary_of_isToken {k : Kind} (h : k.isToken = true) : k.isUnary = true := by
  rw [isUnary, Bool.not_eq_true', Bool.eq_false_iff]
  intro loose
  simp only [Bool.or_eq_true, beq_iff_eq] at loose
  rcases loose with (rfl | rfl) | rfl <;> exact Bool.noConfusion h

end Kind

namespace Parser

/-- Everything that may follow binds at a strength that `**` has not reached. -/
theorem not_bindsTighter {k : Kind} {p q : Nat} (hp : k.strength? = some p) (hq : q ≤ 12)
    (h : bindsTighter k p q = false) : p ≤ q ∧ k ≠ .asteriskAsterisk := by
  unfold bindsTighter at h
  split at h
  · next isPower =>
    obtain rfl : p = 12 := by
      rw [beq_iff_eq.1 isPower] at hp
      exact (Option.some_inj.1 hp).symm
    exact absurd hq (by simpa using h)
  · next notPower => exact ⟨by simpa using h, by simpa using notPower⟩

theorem bindsTighter_imp {k : Kind} {p q : Nat} (hp : k.strength? = some p) (hq : q ≤ 12)
    (h : bindsTighter k p q = true) : q < p ∨ k = .asteriskAsterisk ∧ q = 12 := by
  unfold bindsTighter at h
  split at h
  · next isPower =>
    have power := beq_iff_eq.1 isPower
    obtain rfl : p = 12 := by
      rw [power] at hp
      exact (Option.some_inj.1 hp).symm
    exact (Nat.lt_or_eq_of_le hq).imp id fun last => ⟨power, last⟩
  · exact .inl (by simpa using h)

end Parser

namespace Scanner

theorem afterGreaterThan_size {cs : List Char}
    (h : (Lexeme.afterGreaterThan cs).1 = .greaterThan) : (Lexeme.afterGreaterThan cs).2 = 0 := by
  unfold Lexeme.afterGreaterThan at h ⊢
  split at h <;> first | rfl | cases h

theorem rescanGreaterThan_eq {s : Scanner} (h : s.token.kind = .greaterThan) :
    s.rescanGreaterThan = s.retake
      { kind := (Lexeme.afterGreaterThan s.rest).1
        size := (Lexeme.afterGreaterThan s.rest).2 + 1 } := by
  rw [rescanGreaterThan, if_pos h]

/-- An operator that has been read anew stays what it is. -/
theorem Sound.rescan_greaterThan_kind {text : List Char} {s : Scanner} (h : s.Sound text) :
    ((s.rescan .greaterThan).rescan .greaterThan).token.kind =
      (s.rescan .greaterThan).token.kind := by
  simp only [Scanner.rescan]
  by_cases hk : s.token.kind = .greaterThan
  · have source : s.fromToken = '>' :: s.rest := by
      rw [fromToken, h.spelled ">" (by rw [hk]; rfl)]
      rfl
    have kind : s.rescanGreaterThan.token.kind = (Lexeme.afterGreaterThan s.rest).1 := by
      rw [rescanGreaterThan_eq hk, Scanner.retake, take_kind]
    by_cases alone : (Lexeme.afterGreaterThan s.rest).1 = .greaterThan
    · -- nothing was added to the token, so the same text stands behind it
      have rest : s.rescanGreaterThan.rest = s.rest := by
        rw [rescanGreaterThan_eq hk, Scanner.retake, take_rest, source, afterGreaterThan_size alone]
        rfl
      rw [rescanGreaterThan_eq (kind.trans alone), Scanner.retake, take_kind, rest, kind]
    · rw [rescanGreaterThan, if_neg (kind ▸ alone)]
  · have same : s.rescanGreaterThan = s := by rw [rescanGreaterThan, if_neg hk]
    rw [same, same]

end Scanner

/-! ## Operands -/

namespace Node

/-- The operator of a binary expression. -/
def operator? (n : Node) : Option Kind :=
  if n.kind = .binaryExpression then n.marks.head?.map (·.kind) else none

/-- How tightly the operator of a binary expression binds. Commas and assignments join no operands. -/
def strength? (n : Node) : Option Nat := n.operator?.bind Kind.strength?

/-- Whether the expression may stand beside an operator without parentheses: it is no conditional
expression, arrow function, assignment or list. -/
structure IsOperand (n : Node) : Prop where
  notConditional : n.kind ≠ .conditionalExpression
  notArrow : n.kind ≠ .arrowFunction
  joined : n.kind = .binaryExpression → n.strength?.isSome = true

theorem operator?_of_isUnary {n : Node} (h : n.kind.isUnary = true) : n.operator? = none := by
  rw [operator?, if_neg]
  intro binary
  rw [binary] at h
  exact Bool.noConfusion h

theorem isOperand_of_isUnary {n : Node} (h : n.kind.isUnary = true) : n.IsOperand := by
  refine ⟨?_, ?_, ?_⟩ <;> intro loose <;> rw [loose] at h <;> exact Bool.noConfusion h

/-- The expression begins with a function expression whose `async` stands in front of it. -/
def BeginsAsync (n : Node) : Prop :=
  ∃ f, n.Contains f ∧ f.kind = .functionExpression ∧ f.modifiers.isAsync = true ∧
    f.span.start = n.span.start

theorem BeginsAsync.inRole {n : Node} (h : n.BeginsAsync) (role : Role) :
    (n.inRole role).BeginsAsync := by
  obtain ⟨f, inner, kind, isAsync, start⟩ := h
  cases inner with
  | self => exact ⟨_, .self _, kind, isAsync, start⟩
  | child mem inner => exact ⟨f, .child (n := n.inRole role) mem inner, kind, isAsync, start⟩

theorem BeginsAsync.of_child {n c : Node} {role : Role} (h : c.BeginsAsync)
    (mem : c.inRole role ∈ n.children) (start : n.span.start = c.span.start) : n.BeginsAsync := by
  obtain ⟨f, inner, kind, isAsync, first⟩ := h.inRole role
  exact ⟨f, .child mem inner, kind, isAsync, first.trans start.symm⟩

end Node

namespace Parse

variable {r s t : Reading} {n : Node} {least : Nat}

/-- Where an expression that is read at `r` begins. The `async` of a function expression is left in
front of it. -/
def Reading.Begins (r : Reading) (n : Node) : Prop :=
  n.span.start = r.here ∨
    r.token.kind = .asyncKeyword ∧ n.span.start = r.advance.here ∧ n.BeginsAsync

/-- The expression lies between two readings: it ends with a token that was consumed for it, or is
put in where nothing was consumed. -/
structure Spans (r : Reading) (n : Node) (s : Reading) : Prop where
  run : Run r s
  begins : r.Begins n
  ends : n.span.stop = s.lastEnd ∧ n.span.start < s.lastEnd ∨
    n.flags.missing = true ∧ n.span = .empty r.here ∧ s.here = r.here ∧ s.lastEnd = r.lastEnd

/-- The current token does not join operands that bind tighter than `least`. An `as` or `satisfies`
joins no operands. -/
def Rests (least : Nat) (r : Reading) : Prop :=
  ∀ p, r.token.kind.strength? = some p → Parser.bindsTighter r.token.kind p least = true →
    r.token.kind = .asKeyword ∨ r.token.kind = .satisfiesKeyword

/-- Likewise, where a `>` is first read as the longest operator it begins. -/
def Stops (least : Nat) (r : Reading) : Prop := Rests least (r.rescan .greaterThan)

/-- Operands that are joined by operators which bind tighter than `least`, as many as there are. -/
structure Joins (least : Nat) (r : Reading) (n : Node) (s : Reading) : Prop where
  spans : Spans r n s
  operand : n.IsOperand
  /-- The operator at the root. -/
  root : ∀ k ∈ n.operator?, ∀ q, k.strength? = some q → Parser.bindsTighter k q least = true
  stops : Stops least s

/-- Whatever begins with the first token and consumes it spans what is consumed. -/
theorem Spans.plain (run : Run r s) (span : n.span = ⟨r.here, s.lastEnd⟩)
    (consumed : r.here < s.lastEnd) : Spans r n s where
  run
  begins := .inl (by rw [span])
  ends := .inl (by rw [span]; exact ⟨rfl, consumed⟩)

theorem Spans.rescan (h : Spans r n s) (way : Rescan) : Spans r n (s.rescan way) where
  run := .step h.run (.rescan way s)
  begins := h.begins
  ends := by simpa using h.ends

/-- What is consumed behind an expression may be added to it. -/
theorem Spans.extend {m : Node} {role : Role} (h : Spans r n s) (valid : s.Valid) (run : Run s t)
    (span : m.span = ⟨n.span.start, t.lastEnd⟩) (mem : n.inRole role ∈ m.children)
    (consumed : s.here < t.lastEnd) : Spans r m t where
  run := h.run.trans run
  begins := by
    rcases h.begins with here | ⟨isAsync, next, begins⟩
    · exact .inl (by rw [span, here])
    · exact .inr ⟨isAsync, by rw [span, next], begins.of_child mem (by rw [span])⟩
  ends := by
    rw [span]
    refine .inl ⟨rfl, ?_⟩
    rcases h.ends with ⟨-, last⟩ | ⟨-, empty, here, -⟩
    · exact Nat.lt_of_lt_of_le last (run.lastEnd_mono valid)
    · rw [empty, ← here]
      exact consumed

/-- A token that is consumed lies behind the place where it was met. -/
theorem Run.here_lt_lastEnd (run : Run r.advance s) (valid : r.Valid)
    (more : r.token.kind ≠ .endOfFile) : r.here < s.lastEnd := by
  obtain ⟨text, sound⟩ := valid
  exact Nat.lt_of_lt_of_le (sound.here_lt_stop more) (run.lastEnd_le sound.advance)

/-- The node is a unary expression, and lies where it was read. -/
structure UnaryAt (s : State) (n : Node) (t : State) : Prop where
  kind : n.kind.isUnary = true
  spans : Spans s.toReading n t.toReading

end Parse

/-- What is known of the operands that a knot reads. -/
structure Knot.Operands (knot : Knot) : Prop where
  leads : knot.Leads
  unary : ∀ {s : State} {n : Node} {t : State}, s.Valid → knot .unary s = some (n, t) →
    UnaryAt s n t
  construction : ∀ {s : State} {n : Node} {t : State}, s.Valid → s.token.kind = .newKeyword →
    knot .construction s = some (n, t) → UnaryAt s n t
  joins : ∀ {least : Nat} {s : State} {n : Node} {t : State}, s.Valid →
    knot (.binary least) s = some (n, t) → Joins least s.toReading n t.toReading

namespace Parser

variable {α β : Type} {knot : Knot} {s t : State} {n : Node} {p : Parser α} {f : α → Parser β}

section Views

theorem run_here {f : Nat → Parser β} : (here >>= f).run knot s = (f s.here).run knot s := rfl

theorem run_kind {f : Kind → Parser β} : (kind >>= f).run knot s = (f s.token.kind).run knot s :=
  rfl

theorem run_afterLineBreak {f : Bool → Parser β} : (afterLineBreak >>= f).run knot s =
    (f s.token.flags.afterLineBreak).run knot s := rfl

theorem run_rescan {way : Rescan} {f : Unit → Parser β} : (rescan way >>= f).run knot s =
    (f ()).run knot { s with toReading := s.toReading.rescan way } := rfl

theorem run_advance {f : Unit → Parser β} : (advance >>= f).run knot s =
    (f ()).run knot { s with toReading := s.advance } := rfl

theorem run_nextOnLineIs {test : Kind → Bool} {f : Bool → Parser β} (leads : knot.Leads) :
    (nextOnLineIs test >>= f).run knot s =
      (f (!s.advance.token.flags.afterLineBreak && test s.advance.token.kind)).run knot s := by
  rw [run_eq_bind, nextOnLineIs, lookAhead_run leads]
  rfl

end Views

/-! ## What a production ends with -/

/-- The parser makes a node from `start` on, with these nodes among its children. -/
def Makes (start : Nat) (ns : List Node) (p : Parser Node) : Prop :=
  ∀ ⦃knot : Knot⦄ ⦃s : State⦄ ⦃n : Node⦄ ⦃t : State⦄, p.run knot s = some (n, t) →
    n.kind.isUnary = true ∧ n.span = ⟨start, t.lastEnd⟩ ∧ ns ⊆ n.children

/-- The parser makes a node from the current token on. -/
def MakesHere (p : Parser Node) : Prop :=
  ∀ ⦃knot : Knot⦄ ⦃s : State⦄ ⦃n : Node⦄ ⦃t : State⦄, p.run knot s = some (n, t) →
    n.kind.isUnary = true ∧ n.span = ⟨s.here, t.lastEnd⟩

namespace Makes

variable {start : Nat} {ns : List Node} {f : α → Parser Node}

theorem bind (h : ∀ a, (f a).Makes start ns) : (p >>= f).Makes start ns := by
  intro knot s n t hrun
  obtain ⟨a, u, -, hrest⟩ := run_bind hrun
  exact h a hrest

theorem node {k : Kind} {children : List Node} (kind : k.isUnary = true) (sub : ns ⊆ children) :
    (node k start children).Makes start ns := by
  intro knot s n t hrun
  cases hrun
  exact ⟨kind, rfl, sub⟩

/-- The marks and details of a node do not matter. -/
theorem made {k : Kind} {children : List Node} {g : Node → Node} (kind : k.isUnary = true)
    (sub : ns ⊆ children)
    (same : ∀ m, (g m).kind = m.kind ∧ (g m).span = m.span ∧ (g m).children = m.children) :
    (do return g (← Parser.node k start children)).Makes start ns := by
  intro knot s n t hrun
  obtain ⟨m, u, hm, hn⟩ := run_bind hrun
  cases hm
  cases hn
  obtain ⟨hkind, hspan, hchildren⟩ := same { kind := k, span := ⟨start, s.lastEnd⟩, children }
  exact ⟨by rwa [hkind], hspan, by rwa [hchildren]⟩

end Makes

namespace MakesHere

theorem here {f : Nat → Parser Node} (h : ∀ start, (f start).Makes start []) :
    (here >>= f).MakesHere := by
  intro knot s n t hrun
  obtain ⟨kind, span, -⟩ := h s.here hrun
  exact ⟨kind, span⟩

theorem token {f : Token → Parser Node} (h : ∀ t : Token, (f t).Makes t.start []) :
    (token >>= f).MakesHere := by
  intro knot s n t hrun
  obtain ⟨kind, span, -⟩ := h s.token hrun
  exact ⟨kind, span⟩

end MakesHere

/-! ## What a production begins with -/

/-- Where the current token is of this kind, the parser consumes it. -/
def Takes (k : Kind) (p : Parser α) : Prop :=
  ∀ ⦃knot : Knot⦄, knot.Leads → ∀ ⦃s : State⦄ ⦃a : α⦄ ⦃t : State⦄, s.Valid →
    s.token.kind = k → p.run knot s = some (a, t) → s.here < t.lastEnd

namespace Takes

variable {k : Kind}

theorem view {g : State → α} {f : α → Parser β} (h : ∀ a, (f a).Takes k) :
    (view g >>= f).Takes k :=
  fun _ leads s _ _ valid hk hrun => h (g s) leads valid hk hrun

theorem advance {f : Unit → Parser β} (more : k ≠ .endOfFile) :
    (advance >>= f).Takes k := by
  intro knot leads s b t valid hk hrun
  have rest := (f ()).leads leads (s := { s with toReading := s.advance }) hrun
  exact rest.run.here_lt_lastEnd valid (hk ▸ more)

theorem keep {role : MarkRole} {f : Mark → Parser β} (more : k ≠ .endOfFile) :
    (keep role >>= f).Takes k := by
  intro knot leads s b t valid hk hrun
  have rest := (f ⟨role, s.token.kind, s.token.span⟩).leads leads
    (s := { s with toReading := s.advance }) hrun
  exact rest.run.here_lt_lastEnd valid (hk ▸ more)

theorem require {f : Unit → Parser β} (more : k ≠ .endOfFile) :
    (require k >>= f).Takes k := by
  intro knot leads s b t valid due hrun
  obtain ⟨_, u, hdue, hrest⟩ := run_bind hrun
  obtain ⟨_, v, hexpect, hu⟩ := run_bind hdue
  cases hu
  have found : (expect k).run knot s = some (true, { s with toReading := s.advance }) := by
    show (do if s.token.kind = k then Parser.advance; return true else _ : Parser Bool).run
      knot s = _
    rw [if_pos due]
    rfl
  cases found.symm.trans hexpect
  exact ((f ()).leads leads hrest).run.here_lt_lastEnd valid (due ▸ more)

theorem tokenNode {f : Node → Parser β} (more : k ≠ .endOfFile) :
    (tokenNode >>= f).Takes k := by
  intro knot leads s b t valid hk hrun
  have rest := (f { kind := s.token.kind, span := s.token.span }).leads leads
    (s := { s with toReading := s.advance }) hrun
  exact rest.run.here_lt_lastEnd valid (hk ▸ more)

theorem bind {f : α → Parser β} (h : p.Takes k) : (p >>= f).Takes k := by
  intro knot leads s b t valid hk hrun
  obtain ⟨a, u, ha, hb⟩ := run_bind hrun
  have before := (p.leads leads ha).run.valid valid
  exact Nat.lt_of_lt_of_le (h leads valid hk ha) (((f a).leads leads hb).run.lastEnd_mono before)

end Takes

/-! ## What begins with its own token -/

theorem MakesHere.unaryAt {p : Parser Node} {k : Kind} (h : p.MakesHere)
    (leads : knot.Leads) (valid : s.Valid) (hk : s.token.kind = k) (takes : p.Takes k)
    (hrun : p.run knot s = some (n, t)) : UnaryAt s n t := by
  obtain ⟨kind, span⟩ := h hrun
  exact ⟨kind, .plain (p.leads leads hrun).run span (takes leads valid hk hrun)⟩

theorem leaf_unaryAt {make : Token → Node} (valid : s.Valid) (more : s.token.kind ≠ .endOfFile)
    (kind : (make s.token).kind.isUnary = true) (span : (make s.token).span = s.token.span)
    (hrun : (do let t ← token; advance; return make t : Parser Node).run knot s = some (n, t)) :
    UnaryAt s n t := by
  cases hrun
  obtain ⟨text, sound⟩ := valid
  exact ⟨kind, .plain (Step.advance _).run span (sound.here_lt_stop more)⟩

/-- A literal or a word is a token of its own kind. -/
theorem tokenNode_unaryAt (valid : s.Valid) (more : s.token.kind ≠ .endOfFile)
    (hrun : tokenNode.run knot s = some (n, t)) : UnaryAt s n t :=
  leaf_unaryAt valid more (Kind.isUnary_of_isToken valid.isToken) rfl hrun

theorem sourceLiteral_unaryAt (valid : s.Valid) (more : s.token.kind ≠ .endOfFile)
    (hrun : sourceLiteral.run knot s = some (n, t)) : UnaryAt s n t :=
  leaf_unaryAt valid more (Kind.isUnary_of_isToken valid.isToken) rfl hrun

theorem missing_unaryAt {problem : Problem} {isError : problem.template.category = .error}
    (hrun : (do note problem isError; missing .unknown : Parser Node).run knot s = some (n, t)) :
    UnaryAt s n t := by
  cases hrun
  refine ⟨rfl, (Step.note problem isError _).run, .inl ?_, .inr ⟨rfl, ?_, ?_, ?_⟩⟩
  all_goals simp [Span.empty]

theorem templateExpression_makes : templateExpression.MakesHere :=
  .token fun _ => .bind fun _ => .bind fun _ => .made rfl (List.nil_subset _) fun _ => ⟨rfl, rfl, rfl⟩

theorem arrayLiteral_makes : arrayLiteral.MakesHere :=
  .here fun _ => .bind fun _ => .bind fun _ => .bind fun _ => .node rfl (List.nil_subset _)

theorem objectLiteral_makes : objectLiteral.MakesHere :=
  .here fun _ => .bind fun _ => .bind fun _ => .bind fun _ => .bind fun _ => .made rfl (List.nil_subset _) fun _ => ⟨rfl, rfl, rfl⟩

theorem functionExpression_makes (isAsync : Bool) : (functionExpression isAsync).MakesHere :=
  .here fun _ => .bind fun _ => .bind fun _ => .bind fun _ => .bind fun _ => .bind fun _ =>
    .made rfl (List.nil_subset _) fun _ => ⟨rfl, rfl, rfl⟩

theorem parenthesized_makes (start : Nat) : (do
    advance
    let value ← expression
    require .closeParen
    node .parenthesizedExpression start [value.inRole .expression]).Makes start [] :=
  .bind fun _ => .bind fun _ => .bind fun _ => .node rfl (List.nil_subset _)

theorem functionExpression_isAsync {isAsync : Bool}
    (hrun : (functionExpression isAsync).run knot s = some (n, t)) :
    n.kind = .functionExpression ∧ n.modifiers.isAsync = isAsync := by
  obtain ⟨_, _, _, hrun⟩ := run_bind hrun
  obtain ⟨_, _, _, hrun⟩ := run_bind hrun
  obtain ⟨_, _, _, hrun⟩ := run_bind hrun
  obtain ⟨_, _, _, hrun⟩ := run_bind hrun
  obtain ⟨_, _, _, hrun⟩ := run_bind hrun
  obtain ⟨_, _, _, hrun⟩ := run_bind hrun
  cases hrun
  exact ⟨rfl, rfl⟩

/-- Behind `async` a function expression begins in its second token. -/
theorem asyncFunction_unaryAt (leads : knot.Leads) (valid : s.Valid)
    (isAsync : s.token.kind = .asyncKeyword) (isFunction : s.advance.token.kind = .functionKeyword)
    (hrun : (functionExpression true).run knot { s with toReading := s.advance } = some (n, t)) :
    UnaryAt s n t := by
  obtain ⟨kind, async⟩ := functionExpression_isAsync hrun
  obtain ⟨-, span⟩ := functionExpression_makes true hrun
  have step := (Step.advance s.toReading).run
  have run := ((functionExpression true).leads leads hrun).run
  have consumed := (Takes.view fun _ => Takes.require (by decide) :
    (functionExpression true).Takes .functionKeyword) leads (step.valid valid) isFunction hrun
  refine ⟨by rw [kind]; rfl, step.trans run, .inr ⟨isAsync, by rw [span], ?_⟩, .inl ?_⟩
  · exact ⟨n, .self n, kind, async, rfl⟩
  · rw [span]
    exact ⟨rfl, consumed⟩

theorem regularExpression_unaryAt (valid : s.Valid) (more : s.token.kind ≠ .endOfFile)
    (hrun : (do rescan .slash; sourceLiteral : Parser Node).run knot s = some (n, t)) :
    UnaryAt s n t := by
  have step := Step.rescan .slash s.toReading
  have isToken := (step.run.valid valid).isToken
  obtain ⟨text, sound⟩ := valid
  have still : (s.toReading.rescan .slash).token.kind ≠ .endOfFile := by
    rcases sound.scanner.rescan_kind .slash with same | reread
    · rwa [Reading.token, Reading.rescan, same]
    · exact Kind.ne_endOfFile reread rfl
  have consumed := (sound.rescan .slash).here_lt_stop still
  rw [Reading.rescan_here] at consumed
  cases hrun
  refine ⟨Kind.isUnary_of_isToken isToken, .plain (.step step.run (.advance _)) ?_ consumed⟩
  exact congrArg (Span.mk · _) (Reading.rescan_here .slash s.toReading)

theorem primary_unaryAt (leads : knot.Leads) (valid : s.Valid)
    (hrun : primary.run knot s = some (n, t)) : UnaryAt s n t := by
  rw [primary, run_here, run_kind] at hrun
  split at hrun
  case h_1 hk => exact sourceLiteral_unaryAt valid (by simp [hk]) hrun
  case h_2 hk => exact sourceLiteral_unaryAt valid (by simp [hk]) hrun
  case h_3 hk => exact leaf_unaryAt valid (by simp [hk]) rfl rfl hrun
  case h_4 hk => exact leaf_unaryAt valid (by simp [hk]) (by rw [hk]; rfl) rfl hrun
  case h_5 hk =>
    exact templateExpression_makes.unaryAt leads valid hk (.view fun _ => .advance (by decide)) hrun
  case h_6 hk => exact regularExpression_unaryAt valid (by simp [hk]) hrun
  case h_7 hk => exact regularExpression_unaryAt valid (by simp [hk]) hrun
  case h_14 hk =>
    obtain ⟨kind, span, -⟩ := parenthesized_makes s.here hrun
    have consumed := Takes.advance (k := .openParen) (by decide) leads valid hk hrun
    exact ⟨kind, .plain (Parser.leads _ leads hrun).run span consumed⟩
  case h_15 hk =>
    exact arrayLiteral_makes.unaryAt leads valid hk (.view fun _ => .require (by decide)) hrun
  case h_16 hk =>
    exact objectLiteral_makes.unaryAt leads valid hk (.view fun _ => .view fun _ => .require (by decide))
      hrun
  case h_17 hk =>
    exact (functionExpression_makes false).unaryAt leads valid hk (.view fun _ => .require (by decide))
      hrun
  case h_18 =>
    rw [run_nextOnLineIs leads] at hrun
    split at hrun
    · next isAsync =>
      simp only [Bool.and_eq_true, beq_iff_eq] at isAsync
      exact asyncFunction_unaryAt leads valid isAsync.1 isAsync.2.2 hrun
    split at hrun
    · next isName => exact leaf_unaryAt valid (Kind.ne_endOfFile isName rfl) rfl rfl hrun
    · exact missing_unaryAt hrun
  all_goals next hk => exact tokenNode_unaryAt valid (by simp [hk]) hrun

/-! ## Chains -/

/-- What every round keeps holds of what a loop has reached; the last round gives the result. -/
theorem loop_keeps {round : α → Parser (α ⊕ β)} (I : α → State → Prop) {Q : β → State → Prop}
    (step : ∀ {a : α} {s : State} {r : α ⊕ β} {t : State}, I a s →
      (round a).run knot s = some (r, t) → r.elim (I · t) (Q · t))
    {a : α} {b : β} (start : I a s) (hrun : (loop round a).run knot s = some (b, t)) : Q b t := by
  have rounds : ∀ n a s, I a s → (iterate round n a).run knot s = some (b, t) → Q b t := by
    intro n
    induction n with
    | zero =>
      intro a s ha hrun
      cases hrun
    | succ n ih =>
      intro a s ha hrun
      rw [iterate, run_here] at hrun
      obtain ⟨r, u, hround, hrest⟩ := run_bind hrun
      have kept := step ha hround
      cases r with
      | inl a' =>
        dsimp only at hrest
        rw [run_here] at hrest
        split at hrest
        · exact ih a' u kept hrest
        · cases hrest
      | inr b' =>
        cases hrest
        exact kept
  exact rounds (s.size + 2) a s start hrun

/-- An expression with a link behind it. -/
theorem link_unaryAt {target m : Node} {t' u : State} {q : Parser Node}
    (h : UnaryAt s target t) (valid : t.Valid) (leads : knot.Leads) (before : Run t.toReading t'.toReading)
    (makes : q.Makes target.span.start [target.inRole .expression])
    (hrun : q.run knot t' = some (m, u)) (consumed : t.here < u.lastEnd) : UnaryAt s m u := by
  obtain ⟨kind, span, sub⟩ := makes hrun
  have run := before.trans (q.leads leads hrun).run
  exact ⟨kind, h.spans.extend valid run span (sub List.mem_cons_self) consumed⟩

section Links

variable (target : Node) (questionDot : List Mark)

theorem propertyLink_makes : (propertyLink target questionDot).Makes target.span.start
    [target.inRole .expression] :=
  .bind fun _ => .made rfl (by simp) fun _ => ⟨rfl, rfl, rfl⟩

theorem elementLink_makes : (elementLink target questionDot).Makes target.span.start
    [target.inRole .expression] :=
  .bind fun _ => .bind fun _ => .bind fun _ => .made rfl (by simp) fun _ => ⟨rfl, rfl, rfl⟩

theorem callLink_makes (typed : List Role × List Node) :
    (callLink target questionDot typed).Makes target.span.start [target.inRole .expression] :=
  .bind fun _ => .made rfl (by simp) fun _ => ⟨rfl, rfl, rfl⟩

theorem optionalLink_makes (allowCalls : Bool) : (optionalLink target allowCalls).Makes
    target.span.start [target.inRole .expression] := by
  refine .bind fun mark => .bind fun next => ?_
  split
  · exact .bind fun typed => callLink_makes target _ typed
  split
  · exact elementLink_makes target _
  · exact propertyLink_makes target _

end Links

theorem attempt_cases {p : Parser (Option α)} {found : Option α} (leads : knot.Leads)
    (hrun : (attempt p).run knot s = some (found, t)) :
    found = none ∧ t = s ∨ found.isSome = true ∧ p.run knot s = some (found, t) := by
  rw [attempt_run leads] at hrun
  obtain ⟨⟨found', u⟩, hp, heq⟩ := Option.map_eq_some_iff.1 hrun
  cases found' with
  | none =>
    cases heq
    exact .inl ⟨rfl, rfl⟩
  | some a =>
    cases heq
    exact .inr ⟨rfl, hp⟩

theorem typeArguments_takes : typeArguments.Takes .lessThan := .require (by decide)

theorem soundTypeArguments_cases {follow : Kind → Bool} {found : Option (List Role × List Node)}
    (leads : knot.Leads) (valid : s.Valid) (less : s.token.kind = .lessThan)
    (hrun : (soundTypeArguments follow).run knot s = some (found, t)) :
    found = none ∧ t = s ∨ found.isSome = true ∧ s.here < t.lastEnd := by
  refine (attempt_cases leads hrun).imp id fun ⟨isSome, hrun⟩ => ⟨isSome, ?_⟩
  exact Takes.view (fun _ => .bind typeArguments_takes) leads valid less hrun

theorem chain_unaryAt {allowCalls : Bool} {first : Node} {u : State} (leads : knot.Leads)
    (valid : s.Valid) (h : UnaryAt s first t)
    (hrun : (chain allowCalls first).run knot t = some (n, u)) : UnaryAt s n u := by
  refine loop_keeps (UnaryAt s) (fun {target t r u} h hround => ?_) h hrun
  have valid := h.spans.run.valid valid
  rw [run_kind] at hround
  split at hround
  case h_1 dot =>
    have consumed := Takes.advance (k := .dot) (by decide) leads valid dot hround
    rw [run_advance] at hround
    obtain ⟨m, v, hlink, hr⟩ := run_bind hround
    cases hr
    exact link_unaryAt h valid leads (Step.advance _).run (propertyLink_makes target []) hlink consumed
  case h_2 dot =>
    obtain ⟨m, v, hlink, hr⟩ := run_bind hround
    cases hr
    have consumed := Takes.keep (k := .questionDot) (by decide) leads valid dot hlink
    exact link_unaryAt h valid leads (.refl _) (optionalLink_makes target allowCalls) hlink consumed
  case h_3 bracket =>
    obtain ⟨m, v, hlink, hr⟩ := run_bind hround
    cases hr
    have consumed := Takes.require (k := .openBracket) (by decide) leads valid bracket hlink
    exact link_unaryAt h valid leads (.refl _) (elementLink_makes target []) hlink consumed
  case h_4 mark =>
    rw [run_afterLineBreak] at hround
    split at hround
    · cases hround
      exact h
    · have consumed := Takes.advance (k := .exclamation) (by decide) leads valid mark hround
      rw [run_advance] at hround
      obtain ⟨m, v, hlink, hr⟩ := run_bind hround
      cases hr
      refine link_unaryAt h valid leads (Step.advance _).run (.node rfl ?_) hlink consumed
      simp
  case h_5 paren =>
    split at hround
    · obtain ⟨m, v, hlink, hr⟩ := run_bind hround
      cases hr
      have consumed := Takes.bind (Takes.require (k := .openParen) (by decide)) leads valid paren hlink
      exact link_unaryAt h valid leads (.refl _) (callLink_makes target [] ([], [])) hlink consumed
    · cases hround
      exact h
  case h_6 less =>
    split at hround
    · obtain ⟨found, v, hfound, hrest⟩ := run_bind hround
      have before := (Parser.leads _ leads hfound).run
      obtain ⟨rfl, rfl⟩ | ⟨isSome, consumed⟩ := soundTypeArguments_cases leads valid less hfound
      · cases hrest
        exact h
      · obtain ⟨typed, rfl⟩ := Option.isSome_iff_exists.1 isSome
        obtain ⟨m, w, hlink, hr⟩ := run_bind hrest
        cases hr
        have further := (Parser.leads _ leads hlink).run.lastEnd_mono (before.valid valid)
        exact link_unaryAt h valid leads before (callLink_makes target [] typed) hlink
          (Nat.lt_of_lt_of_le consumed further)
    · cases hround
      exact h
  case h_7 =>
    cases hround
    exact h

theorem construction_makes : construction.MakesHere := by
  refine .here fun start => .bind fun word => .bind fun isTarget => ?_
  split
  · exact .bind fun name => .node rfl (List.nil_subset _)
  · refine .bind fun callee => .bind fun callee => .bind fun types => .bind fun arguments => ?_
    exact .made rfl (List.nil_subset _) fun _ => ⟨rfl, rfl, rfl⟩

theorem construction_unaryAt (leads : knot.Leads) (valid : s.Valid)
    (begins : s.token.kind = .newKeyword) (hrun : construction.run knot s = some (n, t)) :
    UnaryAt s n t :=
  construction_makes.unaryAt leads valid begins (.view fun _ => .tokenNode (by decide)) hrun

theorem leftHandSide_unaryAt (hk : knot.Operands) (valid : s.Valid)
    (hrun : leftHandSide.run knot s = some (n, t)) : UnaryAt s n t := by
  obtain ⟨first, u, hfirst, hchain⟩ := run_bind hrun
  refine chain_unaryAt hk.leads valid ?_ hchain
  rw [chainHead, run_kind] at hfirst
  split at hfirst
  · next isNew => exact hk.construction valid isNew hfirst
  · exact primary_unaryAt hk.leads valid hfirst

/-! ## Operators -/

theorem prefixed_makes (start : Nat) : (prefixed start).Makes start [] :=
  .bind fun _ => .bind fun _ => .bind fun _ => .made rfl (List.nil_subset _) fun _ => ⟨rfl, rfl, rfl⟩

theorem typeAssertion_makes (start : Nat) : (typeAssertion start).Makes start [] :=
  .bind fun _ => .bind fun _ => .bind fun _ => .bind fun _ => .node rfl (List.nil_subset _)

theorem Makes.unaryAt {p : Parser Node} {k : Kind} (h : p.Makes s.here []) (leads : knot.Leads)
    (valid : s.Valid) (hk : s.token.kind = k) (takes : p.Takes k)
    (hrun : p.run knot s = some (n, t)) : UnaryAt s n t := by
  obtain ⟨kind, span, -⟩ := h hrun
  exact ⟨kind, .plain (p.leads leads hrun).run span (takes leads valid hk hrun)⟩

theorem prefixed_unaryAt {k : Kind} (leads : knot.Leads) (valid : s.Valid)
    (hk : s.token.kind = k) (more : k ≠ .endOfFile)
    (hrun : (prefixed s.here).run knot s = some (n, t)) : UnaryAt s n t :=
  (prefixed_makes s.here).unaryAt leads valid hk (.view fun _ => .advance more) hrun

theorem postfixed_unaryAt (hk : knot.Operands) (valid : s.Valid)
    (hrun : (postfixed s.here).run knot s = some (n, t)) : UnaryAt s n t := by
  obtain ⟨operand, u, hoperand, hrun⟩ := run_bind hrun
  have h := leftHandSide_unaryAt hk valid hoperand
  rw [run_kind, run_afterLineBreak] at hrun
  split at hrun
  · next isOperator =>
    have more : u.token.kind ≠ .endOfFile := fun atEnd => by simp [atEnd] at isOperator
    have consumed := Takes.advance more hk.leads (h.spans.run.valid valid) rfl hrun
    rw [run_advance] at hrun
    obtain ⟨kind, span, -⟩ := (Makes.made rfl (List.nil_subset _) fun _ => ⟨rfl, rfl, rfl⟩ : Makes s.here [] (do
      return { ← node .postfixUnaryExpression s.here [operand.inRole .operand] with
        detail := .operator u.token.kind })) hrun
    have run := h.spans.run.trans ((Step.advance _).run.trans (Parser.leads _ hk.leads hrun).run)
    refine ⟨kind, .plain run span ?_⟩
    exact Nat.lt_of_le_of_lt h.spans.run.here_le consumed
  · cases hrun
    exact h

theorem unary_unaryAt (hk : knot.Operands) (valid : s.Valid)
    (hrun : unary.run knot s = some (n, t)) : UnaryAt s n t := by
  rw [unary, run_here, run_kind] at hrun
  split at hrun
  case h_10 isAwait =>
    rw [run_nextOnLineIs hk.leads] at hrun
    split at hrun
    · exact prefixed_unaryAt hk.leads valid isAwait (by decide) hrun
    · exact postfixed_unaryAt hk valid hrun
  case h_11 less =>
    exact (typeAssertion_makes s.here).unaryAt hk.leads valid less (.advance (by decide)) hrun
  case h_12 => exact postfixed_unaryAt hk valid hrun
  all_goals next isOperator => exact prefixed_unaryAt hk.leads valid isOperator (by decide) hrun

end Parser
end FactorySync
