import FactorySync.Proofs.Progress
import FactorySync.Proofs.Rules

/-!
# Rules for parsers that do not give up

`p.Answers limit s Q`: started in the state `s`, the parser `p` does not give up, and `Q` holds of
its value and the state it leaves, provided that the knot reads every goal that is worth less than
`limit`. A goal is worth more the more text is left and, with the same text left, the higher its
rank is (`Goal.rank`): a goal may ask for one of the same or a higher rank once a token is consumed.
`p.Total rank` says that `p` answers wherever goals below this rank may be asked for at once.
-/

namespace FactorySync

open Parse

/-- The goals in the order in which one asks for another without having consumed a token. -/
@[simp] def Goal.rank : Goal → Nat
  | .construction | .typeOperand | .bindingName => 0
  | .unary | .type | .boundType => 1
  | .binary _ => 2
  | .assignment => 3
  | .statement => 4

/-- A construction is only asked for where one begins. -/
def Goal.MayBegin (goal : Goal) (s : State) : Prop :=
  goal = .construction → s.token.kind = .newKeyword

/-- Where goals below the rank may be asked for, this one may be, whatever the token is. -/
class Goal.Below (goal : Goal) (rank : Nat) : Prop where
  other : goal ≠ .construction
  lt : goal.rank < rank

section Below

variable {rank : Nat}

instance : Goal.typeOperand.Below (rank + 1) := ⟨nofun, Nat.le_add_left 1 rank⟩
instance : Goal.bindingName.Below (rank + 1) := ⟨nofun, Nat.le_add_left 1 rank⟩
instance : Goal.unary.Below (rank + 2) := ⟨nofun, Nat.le_add_left 2 rank⟩
instance : Goal.type.Below (rank + 2) := ⟨nofun, Nat.le_add_left 2 rank⟩
instance : Goal.boundType.Below (rank + 2) := ⟨nofun, Nat.le_add_left 2 rank⟩
instance {level : Nat} : (Goal.binary level).Below (rank + 3) := ⟨nofun, Nat.le_add_left 3 rank⟩
instance : Goal.assignment.Below (rank + 4) := ⟨nofun, Nat.le_add_left 4 rank⟩
instance : Goal.statement.Below (rank + 5) := ⟨nofun, Nat.le_add_left 5 rank⟩

end Below

/-- A test that the end of the file fails tells that more follows. -/
theorem Kind.ne_endOfFile {k : Kind} {test : Kind → Bool} (h : test k = true)
    (fails : test .endOfFile = false) : k ≠ .endOfFile := by
  rintro rfl
  rw [fails] at h
  exact Bool.noConfusion h

namespace Parse

/-- The state in the middle of a file. -/
structure State.Ready (s : State) : Prop where
  valid : s.Valid
  left_le : s.left ≤ s.size + 1

theorem State.Ready.leads {s t : State} (h : s.Ready) (l : s.Leads t) : t.Ready := by
  obtain ⟨text, sound⟩ := h.valid
  refine ⟨⟨text, l.run.sound sound⟩, ?_⟩
  rw [l.size]
  exact Nat.le_trans (l.run.left_le sound) h.left_le

end Parse

/-- The knot reads every goal that is worth less than `limit`. -/
def Knot.Grants (knot : Knot) (limit : Nat) : Prop :=
  ∀ ⦃goal : Goal⦄ ⦃s : State⦄, s.Ready → goal.MayBegin s → 8 * s.left + goal.rank < limit →
    ∃ n t, knot goal s = some (n, t)

/-- In this state goals below the rank may be asked for. -/
structure Within (limit rank : Nat) (s : State) : Prop where
  ready : s.Ready
  le : 8 * s.left + rank ≤ limit

namespace Parser

variable {α β : Type} {limit rank : Nat} {s t : State} {p : Parser α} {f : α → Parser β}
variable {P P' : α → State → Prop} {Q : β → State → Prop}

/-- The parser does not give up. -/
def Answers (p : Parser α) (limit : Nat) (s : State) (Q : α → State → Prop) : Prop :=
  ∀ ⦃knot : Knot⦄, knot.Leads → knot.Grants limit → ∃ a t, p.run knot s = some (a, t) ∧ Q a t

/-- The parser does not give up where goals below the rank may be asked for. -/
def Total (rank : Nat) (p : Parser α) : Prop :=
  ∀ ⦃limit : Nat⦄ ⦃s : State⦄, Within limit rank s → p.Answers limit s fun _ _ => True

/-! ## Steps -/

theorem Answers.pure {a : α} (h : P a s) : (pure a : Parser α).Answers limit s P :=
  fun _ _ _ => ⟨a, s, rfl, h⟩

theorem Answers.bind (hp : p.Answers limit s P)
    (hf : ∀ a t, s.Leads t → P a t → (f a).Answers limit t Q) : (p >>= f).Answers limit s Q := by
  intro knot leads grants
  obtain ⟨a, t, hrun, ha⟩ := hp leads grants
  obtain ⟨b, u, hrun', hb⟩ := hf a t (p.leads leads hrun) ha leads grants
  refine ⟨b, u, ?_, hb⟩
  rw [run_eq_bind, hrun]
  exact hrun'

theorem Answers.mono (h : p.Answers limit s P) (hP : ∀ a t, s.Leads t → P a t → P' a t) :
    p.Answers limit s P' := by
  intro knot leads grants
  obtain ⟨a, t, hrun, ha⟩ := h leads grants
  exact ⟨a, t, hrun, hP a t (p.leads leads hrun) ha⟩

theorem Answers.forget (h : p.Answers limit s P) : p.Answers limit s fun _ _ => True :=
  h.mono fun _ _ _ _ => trivial

theorem Answers.countDown {n : Nat} (positive : n ≠ 0) :
    (countDown n).Answers limit s fun m t => n = m + 1 ∧ t = s := by
  cases n with
  | zero => exact absurd rfl positive
  | succ n => exact .pure ⟨rfl, rfl⟩

section Views

variable {g : State → α} {h : α → Parser β}

theorem answers_view : (view g >>= h).Answers limit s Q ↔ (h (g s)).Answers limit s Q := Iff.rfl

theorem answers_advance {f : Unit → Parser β} : (advance >>= f).Answers limit s Q ↔
    (f ()).Answers limit { s with toReading := s.advance } Q := Iff.rfl

theorem answers_here {f : Nat → Parser β} :
    (here >>= f).Answers limit s Q ↔ (f s.here).Answers limit s Q := Iff.rfl

theorem answers_kind {f : Kind → Parser β} :
    (kind >>= f).Answers limit s Q ↔ (f s.token.kind).Answers limit s Q := Iff.rfl

theorem answers_token {f : Token → Parser β} :
    (token >>= f).Answers limit s Q ↔ (f s.token).Answers limit s Q := Iff.rfl

theorem answers_afterLineBreak {f : Bool → Parser β} :
    (afterLineBreak >>= f).Answers limit s Q ↔
      (f s.token.flags.afterLineBreak).Answers limit s Q := Iff.rfl

theorem answers_noteCount {f : Nat → Parser β} : (noteCount >>= f).Answers limit s Q ↔
    (f (s.notes.length + s.scanner.diagnostics.length)).Answers limit s Q := Iff.rfl

end Views

theorem Answers.note {problem : Problem} {isError : problem.template.category = .error} :
    (note problem isError).Answers limit s fun _ t => t = { s with toReading := s.note problem } :=
  fun _ _ _ => ⟨(), _, rfl, rfl⟩

/-! ## Where a parser may go on -/

end Parser

namespace Within

open FactorySync.Parser

variable {α β : Type} {limit rank rank' : Nat} {s t : State} {p : Parser α} {f : α → Parser β}
variable {P : α → State → Prop} {Q : β → State → Prop}

theorem lower (h : Within limit rank s) (le : rank' ≤ rank) : Within limit rank' s :=
  ⟨h.ready, Nat.le_trans (Nat.add_le_add_left le _) h.le⟩

theorem leads (h : Within limit rank s) (l : s.Leads t) : Within limit rank t := by
  obtain ⟨text, sound⟩ := h.ready.valid
  have left_le : t.left ≤ s.left := l.run.left_le sound
  have := h.le
  exact ⟨h.ready.leads l, by omega⟩

/-- Where a token is consumed, any goal may be asked for. -/
theorem moved (h : Within limit rank s) (l : s.Leads t) (moved : s.here < t.here) :
    Within limit 8 t := by
  obtain ⟨text, sound⟩ := h.ready.valid
  have left_lt : t.left < s.left := l.run.left_lt sound moved
  have := h.le
  exact ⟨h.ready.leads l, by omega⟩

theorem go (h : Within limit rank s) (hp : p.Answers limit s P)
    (next : ∀ a t, Within limit rank t → s.here ≤ t.here → P a t → (f a).Answers limit t Q) :
    (p >>= f).Answers limit s Q :=
  .bind hp fun a t l ha => next a t (h.leads l) l.run.here_le ha

theorem run (h : Within limit rank s) (hp : p.Total rank)
    (next : ∀ a t, Within limit rank t → s.here ≤ t.here → (f a).Answers limit t Q) :
    (p >>= f).Answers limit s Q :=
  h.go (hp h) fun a t h' le _ => next a t h' le

theorem move (h : Within limit rank s) (hp : p.Answers limit s fun _ t => s.here < t.here)
    (next : ∀ a t, Within limit 8 t → s.here < t.here → (f a).Answers limit t Q) :
    (p >>= f).Answers limit s Q :=
  .bind hp fun a t l lt => next a t (h.moved l lt) lt

/-- What follows a consumed token may ask for any goal. -/
theorem after (h : Within limit rank s) (hp : p.Answers limit s fun _ t => s.here < t.here)
    (next : ∀ a, (f a).Total 8) : (p >>= f).Answers limit s fun _ t => s.here < t.here :=
  h.move hp fun a _ h' lt =>
    (next a h').mono fun _ _ l _ => Nat.lt_of_lt_of_le lt l.run.here_le

theorem advance (h : Within limit rank s) (more : s.token.kind ≠ .endOfFile) :
    Parser.advance.Answers limit s fun _ t => s.here < t.here := by
  obtain ⟨text, sound⟩ := h.ready.valid
  exact fun _ _ _ => ⟨(), _, rfl, sound.here_lt_advance more⟩

/-- Reading a token again neither consumes it nor makes it the end of the file. -/
theorem rescan (h : Within limit rank s) (way : Rescan) :
    (Parser.rescan way).Answers limit s fun _ t =>
      t.here = s.here ∧ (s.token.kind ≠ .endOfFile → t.token.kind ≠ .endOfFile) := by
  obtain ⟨text, sound⟩ := h.ready.valid
  refine fun _ _ _ => ⟨(), _, rfl, Reading.rescan_here way _, fun more => ?_⟩
  rcases sound.scanner.rescan_kind way with same | reread
  · rwa [Reading.token, Reading.rescan, same]
  · exact Kind.ne_endOfFile reread rfl

theorem leaf (h : Within limit rank s) (more : s.token.kind ≠ .endOfFile) {make : Token → α} :
    (do let t ← token; Parser.advance; return make t).Answers limit s fun _ t => s.here < t.here :=
  answers_token.2 (h.move (h.advance more) fun _ _ _ lt => .pure lt)

/-- A token that is due is consumed where it is there. -/
theorem expect (h : Within limit rank s) {k : Kind} (more : k ≠ .endOfFile) :
    (expect k).Answers limit s fun found t =>
      (s.token.kind = k → found = true) ∧ (found = true → s.here < t.here) := by
  rw [Parser.expect, answers_kind]
  split
  · next hk =>
    exact h.move (h.advance (hk ▸ more)) fun _ _ _ lt => .pure ⟨fun _ => rfl, fun _ => lt⟩
  · next hk =>
    exact .bind .note fun _ _ _ _ => .pure ⟨fun due => absurd due hk, Bool.noConfusion⟩

theorem require (h : Within limit rank s) {k : Kind} (due : s.token.kind = k)
    (more : k ≠ .endOfFile) : (require k).Answers limit s fun _ t => s.here < t.here :=
  .bind (h.expect more) fun _ _ _ found => .pure (found.2 (found.1 due))

theorem accept (h : Within limit rank s) {k : Kind} (more : k ≠ .endOfFile) :
    (accept k).Answers limit s fun found t =>
      if found then s.here < t.here else s.token.kind ≠ k ∧ t = s := by
  rw [Parser.accept, answers_kind]
  split
  · next hk => exact h.move (h.advance (hk ▸ more)) fun _ _ _ lt => .pure lt
  · next hk => exact .pure ⟨hk, rfl⟩

theorem need (h : Within limit rank s) {goal : Goal} (lt : goal.rank < rank)
    (begin : goal.MayBegin s) : (need goal).Answers limit s fun _ _ => True := by
  intro knot _ grants
  have := h.le
  obtain ⟨n, t, hrun⟩ := grants h.ready begin (by omega)
  exact ⟨n, t, hrun, trivial⟩

end Within

/-! ## Parsers that ask for nothing out of reach -/

namespace Parser

variable {α β : Type} {limit rank rank' : Nat} {s t : State} {p : Parser α} {f : α → Parser β}
variable {P : α → State → Prop} {Q : β → State → Prop}

namespace Total

theorem pure (a : α) : (pure a : Parser α).Total rank := fun _ _ _ => .pure trivial

theorem bind (hp : p.Total rank) (hf : ∀ a, (f a).Total rank) : (p >>= f).Total rank :=
  fun _ _ h => h.run hp fun a _ h' _ => hf a h'

theorem mono (h : p.Total rank) (le : rank ≤ rank') : p.Total rank' :=
  fun _ _ h' => h (h'.lower le)

theorem view (g : State → α) : (view g).Total rank := fun _ _ _ _ _ _ => ⟨_, _, rfl, trivial⟩

theorem move (g : Reading → Reading) (step : ∀ r, Run r (g r)) : (move g step).Total rank :=
  fun _ _ _ _ _ _ => ⟨(), _, rfl, trivial⟩

theorem advance : advance.Total rank := .move _ _

theorem rescan (way : Rescan) : (rescan way).Total rank := .move _ _

theorem note {problem : Problem} {isError : problem.template.category = .error} :
    (note problem isError).Total rank := .move _ _

theorem passOver {problem : Problem} : (passOver problem).Total rank := .move _ _

theorem need {goal : Goal} [below : goal.Below rank] : (need goal).Total rank :=
  fun _ _ h => h.need below.lt fun isConstruction => absurd isConstruction below.other

theorem expect (k : Kind) : (expect k).Total rank := by
  refine .bind (.view _) fun _ => ?_
  split
  · exact .bind .advance fun _ => .pure _
  · exact .bind .note fun _ => .pure _

theorem require (k : Kind) : (require k).Total rank := .bind (.expect k) fun _ => .pure _

theorem requireUnless (condition : Bool) (k : Kind) : (requireUnless condition k).Total rank := by
  unfold Parser.requireUnless
  split
  · exact .pure _
  · exact .require k

theorem accept (k : Kind) : (accept k).Total rank := by
  refine .bind (.view _) fun _ => ?_
  split
  · exact .bind .advance fun _ => .pure _
  · exact .pure _

theorem skipIf (condition : Bool) : (skipIf condition).Total rank := by
  unfold Parser.skipIf
  split
  · exact .advance
  · exact .pure _

theorem leaf {make : Token → α} :
    (do let t ← token; Parser.advance; return make t).Total rank :=
  .bind (.view _) fun _ => .bind .advance fun _ => .pure _

theorem keep (role : MarkRole) : (keep role).Total rank := .leaf

theorem keepIf (role : MarkRole) (k : Kind) : (keepIf role k).Total rank := by
  refine .bind (.view _) fun _ => ?_
  split
  · exact .bind (.keep role) fun _ => .pure _
  · exact .pure _

theorem node {k : Kind} {start : Nat} {children : List Node} :
    (node k start children).Total rank := .bind (.view _) fun _ => .pure _

theorem missing {k : Kind} {detail : Detail} : (missing k detail).Total rank :=
  .bind (.view _) fun _ => .pure _

theorem tokenNode : tokenNode.Total rank := .leaf

end Total

/-- Behind an optional token any goal may be asked for. -/
theorem Total.whenAccepted {k : Kind} {q : Parser α} (yes : p.Total 8) (no : q.Total rank)
    (more : k ≠ .endOfFile) : (do if ← Parser.accept k then p else q).Total rank := by
  intro limit s h
  refine .bind (h.accept more) fun found t l hfound => ?_
  cases found with
  | true => exact yes (h.moved l hfound)
  | false => exact no (h.leads l)

/-! ## Parsers that consume a token -/

/-- Where the kind of the current token is one of these, the parser does not give up and consumes a
token. -/
def Consumes (kinds : Kind → Prop) (p : Parser α) : Prop :=
  ∀ ⦃limit : Nat⦄ ⦃s : State⦄, Within limit 0 s → kinds s.token.kind →
    p.Answers limit s fun _ t => s.here < t.here

namespace Consumes

variable {kinds : Kind → Prop}

theorem answers (h : p.Consumes kinds) (h' : Within limit rank s) (hk : kinds s.token.kind) :
    p.Answers limit s fun _ t => s.here < t.here := h (h'.lower (Nat.zero_le _)) hk

theorem view {g : State → α} (h : ∀ a, (f a).Consumes kinds) : (view g >>= f).Consumes kinds :=
  fun _ _ h' hk => h _ h' hk

theorem advance {f : Unit → Parser β} (next : (f ()).Total 8)
    (more : ∀ k, kinds k → k ≠ .endOfFile) :
    (Parser.advance >>= f).Consumes kinds :=
  fun _ _ h hk => h.after (h.advance (more _ hk)) fun _ => next

theorem keep {role : MarkRole} {f : Mark → Parser β} (next : ∀ mark, (f mark).Total 8)
    (more : ∀ k, kinds k → k ≠ .endOfFile) : (keep role >>= f).Consumes kinds :=
  fun _ _ h hk => h.after (h.leaf (more _ hk)) next

theorem require {k : Kind} {f : Unit → Parser β} (next : (f ()).Total 8)
    (more : k ≠ .endOfFile) : (require k >>= f).Consumes (· = k) :=
  fun _ _ h hk => h.after (h.require hk more) fun _ => next

/-- Where a token that is due is missing, the rest may ask for no more than the whole. -/
theorem orTotal {k : Kind} {f : Unit → Parser β} (next : (f ()).Total rank) (le : rank ≤ 8)
    (more : k ≠ .endOfFile) :
    (Parser.require k >>= f).Total rank ∧ (Parser.require k >>= f).Consumes (· = k) :=
  ⟨.bind (.require k) fun _ => next, .require (next.mono le) more⟩

theorem orTotalFrom {g : State → α} {k : Kind} {f : α → Unit → Parser β}
    (next : ∀ a, (f a ()).Total rank) (le : rank ≤ 8) (more : k ≠ .endOfFile) :
    (Parser.view g >>= fun a => Parser.require k >>= f a).Total rank ∧
      (Parser.view g >>= fun a => Parser.require k >>= f a).Consumes (· = k) :=
  ⟨.bind (.view g) fun a => (orTotal (next a) le more).1,
    view fun a => (orTotal (next a) le more).2⟩

end Consumes

/-! ## Reading on trial and in another context -/

theorem Answers.lookAhead (h : p.Answers limit s P) :
    (lookAhead p).Answers limit s fun a t => t = s ∧ ∃ u, P a u := by
  intro knot leads grants
  obtain ⟨a, u, hrun, ha⟩ := h leads grants
  refine ⟨a, s, ?_, rfl, u, ha⟩
  rw [lookAhead_run leads, hrun]
  rfl

theorem Answers.attempt {p : Parser (Option α)} {P : Option α → State → Prop}
    (h : p.Answers limit s fun found t => found.isSome = true → P found t) :
    (attempt p).Answers limit s fun found t => found.isSome = true → P found t := by
  intro knot leads grants
  obtain ⟨found, u, hrun, ha⟩ := h leads grants
  rw [attempt_run leads, hrun]
  cases found with
  | none => exact ⟨none, s, rfl, nofun⟩
  | some a => exact ⟨some a, u, rfl, ha⟩

theorem Total.attempt {p : Parser (Option α)} (h : p.Total rank) : (attempt p).Total rank :=
  fun _ _ h' => .forget (.attempt ((h h').mono fun _ _ _ _ _ => trivial))

/-- The parser does not give up and leaves the state as it was. -/
def Peeks (rank : Nat) (p : Parser α) : Prop :=
  ∀ ⦃limit : Nat⦄ ⦃s : State⦄, Within limit rank s → p.Answers limit s fun _ t => t = s

namespace Peeks

theorem total (h : p.Peeks rank) : p.Total rank := fun _ _ h' => (h h').forget

theorem go (hp : p.Peeks rank) (h : Within limit rank s)
    (next : ∀ a, (f a).Answers limit s Q) : (p >>= f).Answers limit s Q :=
  .bind (hp h) fun a _ _ ht => ht ▸ next a

theorem pure (a : α) : (pure a : Parser α).Peeks rank := fun _ _ _ => .pure rfl

theorem view (g : State → α) : (view g).Peeks rank := fun _ _ _ _ _ _ => ⟨_, _, rfl, rfl⟩

theorem bind (hp : p.Peeks rank) (hf : ∀ a, (f a).Peeks rank) : (p >>= f).Peeks rank :=
  fun _ _ h => hp.go h fun a => hf a h

theorem lookAhead (h : p.Total rank) : (lookAhead p).Peeks rank :=
  fun _ _ h' => (h h').lookAhead.mono fun _ _ _ ht => ht.1

theorem nextIs (test : Kind → Bool) : (nextIs test).Peeks rank :=
  .lookAhead (.bind .advance fun _ => .bind (.view _) fun _ => .pure _)

theorem nextOnLineIs (test : Kind → Bool) : (nextOnLineIs test).Peeks rank :=
  .lookAhead (.bind .advance fun _ => .bind (.view _) fun _ => .bind (.view _) fun _ => .pure _)

theorem atStatementEnd : atStatementEnd.Peeks rank := by
  refine .bind (.view _) fun _ => ?_
  split
  all_goals first | exact .pure _ | exact .view _

end Peeks

theorem Total.endStatement : endStatement.Total rank := by
  refine .bind (.view _) fun _ => ?_
  split
  · exact .advance
  · refine .bind Peeks.atStatementEnd.total fun _ => ?_
    split
    · exact .pure _
    · exact .note

theorem Total.nested (h : p.Total rank) : (nested p).Total rank := by
  intro limit s h' knot leads grants
  have deeper : Within limit rank { s with depth := s.depth + 1 } :=
    ⟨⟨h'.ready.valid, h'.ready.left_le⟩, h'.le⟩
  obtain ⟨a, t, hrun, -⟩ := h deeper leads grants
  rw [nested_run leads, hrun]
  exact ⟨a, _, rfl, trivial⟩

theorem Total.deeper {p : Parser Node} (h : p.Total rank) : (deeper p).Total rank := by
  refine .bind (.view _) fun _ => ?_
  split
  · exact .nested h
  · exact .bind .note fun _ => .missing

theorem Total.withExtends (inExtends : Bool) (h : p.Total rank) :
    (withExtends inExtends p).Total rank := by
  intro limit s h' knot leads grants
  have within : Within limit rank { s with inExtends } :=
    ⟨⟨h'.ready.valid, h'.ready.left_le⟩, h'.le⟩
  obtain ⟨a, t, hrun, -⟩ := h within leads grants
  refine ⟨a, _, congrArg (Option.map _) hrun, trivial⟩

/-! ## Loops -/

/-- A loop comes to an end if every round that goes on consumes a token. -/
theorem Answers.loop {round : α → Parser (α ⊕ β)} (I : α → State → Prop)
    (step : ∀ a t, Within limit rank t → I a t → (round a).Answers limit t fun result u =>
      result.elim (fun a' => t.here < u.here ∧ I a' u) (Q · u))
    (h : Within limit rank s) {a : α} (start : I a s) : (loop round a).Answers limit s Q := by
  -- each round that goes on leaves less of the text, so as many rounds as are left are enough
  have rounds : ∀ n a t, t.left < n → Within limit rank t → I a t →
      (iterate round n a).Answers limit t Q := by
    intro n
    induction n with
    | zero => exact fun _ _ lt => absurd lt (Nat.not_lt_zero _)
    | succ n ih =>
      intro a t lt ht ha
      rw [iterate, answers_here]
      refine .bind (step a t ht ha) fun result u l hu => ?_
      cases result with
      | inl a' =>
        obtain ⟨moved, ha'⟩ := hu
        dsimp only
        rw [answers_here, if_pos moved]
        obtain ⟨text, sound⟩ := ht.ready.valid
        have left_lt : u.left < t.left := l.run.left_lt sound moved
        exact ih a' u (by omega) (ht.leads l) ha'
      | inr b => exact .pure hu
  rw [Parser.loop, answers_view]
  exact rounds _ a s (Nat.lt_succ_of_le h.ready.left_le) h start

/-- A round of a loop, of which nothing but its progress matters. -/
def Proceeds (rank : Nat) (round : Parser (α ⊕ β)) : Prop :=
  ∀ ⦃limit : Nat⦄ ⦃s : State⦄, Within limit rank s →
    round.Answers limit s fun result t => result.isLeft = true → s.here < t.here

theorem Total.loop {round : α → Parser (α ⊕ β)} (step : ∀ a, (round a).Proceeds rank) (a : α) :
    (loop round a).Total rank := by
  intro limit s h
  refine .loop (fun _ _ => True) (fun a t ht _ => ?_) h trivial
  refine (step a ht).mono fun result u _ moved => ?_
  cases result with
  | inl a' => exact ⟨moved rfl, trivial⟩
  | inr b => trivial

theorem Proceeds.whenAccepted {k : Kind} {yes no : Parser (α ⊕ β)} (hyes : yes.Total 8)
    (hno : no.Proceeds rank) (more : k ≠ .endOfFile) :
    (do if ← accept k then yes else no).Proceeds rank := by
  intro limit s h
  refine .bind (h.accept more) fun found t l hfound => ?_
  cases found with
  | true => exact (hyes (h.moved l hfound)).mono fun _ _ l' _ _ =>
      Nat.lt_of_lt_of_le hfound l'.run.here_le
  | false => exact (hno (h.leads l)).mono fun _ _ _ moved left =>
      Nat.lt_of_le_of_lt l.run.here_le (moved left)

theorem Proceeds.bind {γ : Type} (hp : p.Total rank) {round : α → Parser (β ⊕ γ)}
    (next : ∀ a, (round a).Proceeds rank) : (p >>= round).Proceeds rank := by
  intro limit s h
  refine h.run hp fun a t h' le => ?_
  exact (next a h').mono fun _ _ _ moved left => Nat.lt_of_le_of_lt le (moved left)

theorem Proceeds.done (b : β) : (Pure.pure (.inr b) : Parser (α ⊕ β)).Proceeds rank :=
  fun _ _ _ => .pure nofun

theorem Proceeds.comma (yes : α) (no : β) : (do
    if ← accept .comma then return .inl yes
    else return .inr no : Parser (α ⊕ β)).Proceeds rank :=
  .whenAccepted (.pure _) (.done _) nofun

theorem Total.someByComma {item : Parser α} (h : item.Total rank) :
    (someByComma item).Total rank :=
  .loop (fun _ => .bind h fun _ => .comma _ _) []

theorem Total.commaList {stop : Kind → Bool} {item : Parser α} (h : item.Total rank) :
    (commaList stop item).Total rank := by
  refine .loop (fun _ => .bind (.view _) fun _ => ?_) []
  split
  · exact .done _
  · exact .bind h fun _ => .comma _ _

/-- The items of a list come to an end if each of them consumes a token, perhaps while it is tested
whether there is one. -/
theorem Total.manyWhile {test : Parser Bool} {item : Parser α}
    (step : ∀ ⦃limit : Nat⦄ ⦃s : State⦄, Within limit rank s →
      test.Answers limit s fun found t => found = true →
        item.Answers limit t fun _ u => s.here < u.here) :
    (manyWhile test item).Total rank := by
  refine .loop (fun items => ?_) []
  intro limit s h
  refine h.go (step h) fun found t h' _ hitem => ?_
  cases found with
  | true => exact h'.go (hitem rfl) fun a u _ _ lt => .pure fun _ => lt
  | false => exact .pure nofun

end Parser
end FactorySync
