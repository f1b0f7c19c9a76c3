import FactorySync.Proofs.Placement

/-!
# Rules for parsers on related readings

How what a parser does on one reading carries over to a reading in which that one is placed, step by
step: a rule for each way in which parsers are put together, and the smallest parsers.
-/

namespace FactorySync

open Parse
open FactorySync.Parser

namespace Placement

variable {L : Placement} {α β γ δ : Type} {s s' : State} {p : Parser α} {q : Parser β}
variable {f : α → Parser γ} {g : β → Parser δ} {R : α → β → Prop} {S : γ → δ → Prop}

/-! ## Steps -/

theorem AlikeAt.bind {P : α → State → β → Prop} {Q : γ → State → δ → Prop}
    (hp : L.AlikeAt s s' p q P)
    (hf : ∀ a b t t', P a t b → L.Like t t' → L.AlikeAt t t' (f a) (g b) Q) :
    L.AlikeAt s s' (p >>= f) (q >>= g) Q := by
  intro k k' knots c u hrun
  obtain ⟨a, t, hp', hf'⟩ := run_bind hrun
  obtain ⟨b, t', hq, hab, like⟩ := hp knots hp'
  obtain ⟨d, u', hg, hcd, like'⟩ := hf a b t t' hab like knots hf'
  refine ⟨d, u', ?_, hcd, like'⟩
  rw [run_eq_bind, hq]
  exact hg

theorem AlikeAt.pure {P : α → State → β → Prop} {a : α} {b : β} (like : L.Like s s')
    (h : P a s b) : L.AlikeAt s s' (pure a) (pure b) P := by
  intro k k' knots a' t hrun
  cases hrun
  exact ⟨b, s', rfl, h, like⟩

theorem AlikeAt.mono {P P' : α → State → β → Prop} (h : L.AlikeAt s s' p q P)
    (imp : ∀ a t b, P a t b → P' a t b) : L.AlikeAt s s' p q P' := by
  intro k k' knots a t hrun
  obtain ⟨b, t', hq, hab, like⟩ := h knots hrun
  exact ⟨b, t', hq, imp a t b hab, like⟩

namespace Alike

theorem bind (hp : L.Alike p q R) (hf : ∀ a b, R a b → L.Alike (f a) (g b) S) :
    L.Alike (p >>= f) (q >>= g) S :=
  fun _ _ like => (hp like).bind fun a b _ _ hab like' => hf a b hab like'

/-- What yields the same value on both readings. -/
theorem andThen {p q : Parser α} {g : α → Parser δ} (hp : L.Alike p q Eq)
    (hf : ∀ a, L.Alike (f a) (g a) S) : L.Alike (p >>= f) (q >>= g) S :=
  hp.bind fun a _ heq => heq ▸ hf a

theorem pure {a : α} {b : β} (h : R a b) : L.Alike (pure a) (pure b) R :=
  fun _ _ like => .pure like h

/-- What is known of all that is read holds beside. -/
theorem also {Q : α → Prop} (h : L.Alike p q R)
    (known : ∀ {k : Knot}, k.Leads → ∀ {s : State}, s.Exact L.text → ∀ {a : α} {t : State},
      p.run k s = some (a, t) → Q a) : L.Alike p q fun a b => R a b ∧ Q a := by
  intro s s' like k k' knots a t hrun
  obtain ⟨b, t', hq, hab, like'⟩ := h like knots hrun
  exact ⟨b, t', hq, ⟨hab, known knots.operands.leads like.exact hrun⟩, like'⟩

theorem view {g : State → α} {h : State → β} (same : ∀ s s', L.Like s s' → R (g s) (h s')) :
    L.Alike (view g) (view h) R := by
  intro s s' like k k' knots a t hrun
  cases hrun
  exact ⟨h s', s', rfl, same s s' like, like⟩

theorem need {goal : Goal} (other : (goal == .construction) = false) :
    L.Alike (need goal) (need goal) L.SameNode :=
  fun _ _ like _ _ knots _ _ hrun => knots.goals like (absurd · (ne_of_beq_false other)) hrun

end Alike

/-! ## Views -/

section Views

variable (h : L.Like s s')
include h

theorem Like.token_eq : s'.token = s.token.moved L.distance := by
  rw [Reading.token, h.reading]
  rfl

theorem Like.kind_eq : s'.token.kind = s.token.kind := by
  rw [h.token_eq]
  rfl

theorem Like.here_eq : s'.here = s.here + L.distance := by
  rw [show s'.here = s'.token.start from rfl, h.token_eq]
  rfl

end Views

namespace Alike

theorem here : L.Alike here here L.SamePlace := .view fun _ _ h => h.here_eq

theorem kind : L.Alike kind kind Eq := .view fun _ _ h => h.kind_eq.symm

theorem token : L.Alike token token fun t t' => t' = t.moved L.distance :=
  .view fun _ _ h => h.token_eq

theorem lastEnd : L.Alike lastEnd lastEnd L.SamePlace := .view fun _ _ h => by
  rw [h.reading]
  rfl

theorem afterLineBreak : L.Alike afterLineBreak afterLineBreak Eq := .view fun _ _ h => by
  rw [h.token_eq]
  rfl

theorem remaining : L.Alike remaining remaining Eq := .view fun _ _ h => by
  rw [h.reading]
  rfl

theorem inExtends : L.Alike (Parser.view (·.inExtends)) (Parser.view (·.inExtends)) Eq :=
  .view fun _ _ h => h.inExtends.symm

theorem depth : L.Alike (Parser.view (·.depth)) (Parser.view (·.depth)) Eq :=
  .view fun _ _ h => h.depth.symm

/-- As much as was noted in front of the text comes to what is noted in it. -/
theorem noteCount : L.Alike noteCount noteCount fun a b =>
    b = a + (L.notes.length + L.diagnostics.length) := .view fun _ _ h => by
  simp only [h.reading, reading, scanner, List.length_append, List.length_map]
  omega

end Alike

/-- Whether something has been noted since shows in both texts. -/
theorem counts_eq {before before' now now' c : Nat} (h : before' = before + c)
    (h' : now' = now + c) : (now' == before') = (now == before) := by
  rw [h, h', Bool.eq_iff_iff, beq_iff_eq, beq_iff_eq, Nat.add_right_cancel_iff]

/-! ## Moves -/

section Moves

variable {f : Reading → Reading}

theorem Like.move (h : L.Like s s') (step : ∀ r, Run r (f r))
    (same : ∀ r : Reading, r.Sound L.text → f (L.reading r) = L.reading (f r)) :
    L.Like { s with toReading := f s.toReading } { s' with toReading := f s'.toReading } where
  exact := (step _).exact h.exact
  reading := by rw [h.reading, same _ h.exact.sound]
  inExtends := h.inExtends
  depth := h.depth
  size_le := h.size_le

theorem Like.advance (h : L.Like s s') : L.Like { s with toReading := s.toReading.advance }
    { s' with toReading := s'.toReading.advance } :=
  h.move (fun r => (Step.advance r).run) fun _ sound => reading_advance sound.scanner

theorem Like.rescan (h : L.Like s s') (way : Rescan) :
    L.Like { s with toReading := s.toReading.rescan way }
      { s' with toReading := s'.toReading.rescan way } :=
  h.move (fun r => (Step.rescan way r).run) fun _ _ => reading_rescan way

theorem Alike.move {step : ∀ r, Run r (f r)}
    (same : ∀ r : Reading, r.Sound L.text → f (L.reading r) = L.reading (f r)) :
    L.Alike (move f step) (move f step) Eq := by
  intro s s' h k k' knots a t hrun
  cases hrun
  exact ⟨(), _, rfl, rfl, h.move step same⟩

end Moves

namespace Alike

theorem advance : L.Alike advance advance Eq := .move fun _ sound => reading_advance sound.scanner

theorem rescan (way : Rescan) : L.Alike (rescan way) (rescan way) Eq :=
  .move fun _ _ => reading_rescan way

theorem note {problem : Problem} {isError : problem.template.category = .error} :
    L.Alike (note problem isError) (note problem isError) Eq := .move fun _ _ => reading_note problem

theorem passOver {problem : Problem} : L.Alike (passOver problem) (passOver problem) Eq :=
  .move fun r sound => by
    by_cases atEnd : r.token.kind = .endOfFile
    · rw [if_pos atEnd, if_pos (by exact atEnd)]
    · rw [if_neg atEnd, if_neg (by exact atEnd), reading_note,
        reading_advance (by simpa using sound.scanner)]

end Alike

/-! ## From one state -/

namespace AlikeAt

variable {P : γ → State → δ → Prop}

theorem here {f : Nat → Parser γ} {g : Nat → Parser δ} (like : L.Like s s')
    (h : L.AlikeAt s s' (f s.here) (g (s.here + L.distance)) P) :
    L.AlikeAt s s' (Parser.here >>= f) (Parser.here >>= g) P := by
  show L.AlikeAt s s' (f s.here) (g s'.here) P
  rwa [like.here_eq]

theorem kind {f : Kind → Parser γ} {g : Kind → Parser δ} (like : L.Like s s')
    (h : L.AlikeAt s s' (f s.token.kind) (g s.token.kind) P) :
    L.AlikeAt s s' (Parser.kind >>= f) (Parser.kind >>= g) P := by
  show L.AlikeAt s s' (f s.token.kind) (g s'.token.kind) P
  rwa [like.kind_eq]

theorem afterLineBreak {f : Bool → Parser γ} {g : Bool → Parser δ} (like : L.Like s s')
    (h : L.AlikeAt s s' (f s.token.flags.afterLineBreak) (g s.token.flags.afterLineBreak) P) :
    L.AlikeAt s s' (Parser.afterLineBreak >>= f) (Parser.afterLineBreak >>= g) P := by
  show L.AlikeAt s s' (f s.token.flags.afterLineBreak) (g s'.token.flags.afterLineBreak) P
  rwa [like.token_eq]

theorem keep {role : MarkRole} {f : Mark → Parser γ} {g : Mark → Parser δ} (like : L.Like s s')
    (h : L.AlikeAt { s with toReading := s.toReading.advance }
      { s' with toReading := s'.toReading.advance } (f ⟨role, s.token.kind, s.token.span⟩)
      (g (Mark.moved L.distance ⟨role, s.token.kind, s.token.span⟩)) P) :
    L.AlikeAt s s' (Parser.keep role >>= f) (Parser.keep role >>= g) P := by
  show L.AlikeAt _ _ (f ⟨role, s.token.kind, s.token.span⟩)
    (g ⟨role, s'.token.kind, s'.token.span⟩) P
  rw [like.token_eq, Token.moved_span]
  exact h

theorem advance {f : Unit → Parser γ} {g : Unit → Parser δ}
    (h : L.AlikeAt { s with toReading := s.toReading.advance }
      { s' with toReading := s'.toReading.advance } (f ()) (g ()) P) :
    L.AlikeAt s s' (Parser.advance >>= f) (Parser.advance >>= g) P := h

theorem rescan {way : Rescan} {f : Unit → Parser γ} {g : Unit → Parser δ}
    (h : L.AlikeAt { s with toReading := s.toReading.rescan way }
      { s' with toReading := s'.toReading.rescan way } (f ()) (g ()) P) :
    L.AlikeAt s s' (Parser.rescan way >>= f) (Parser.rescan way >>= g) P := h

theorem node {k : Kind} {start start' : Nat} {ns ns' : List Node} {f : Node → Parser γ}
    {g : Node → Parser δ} (like : L.Like s s')
    (h : L.AlikeAt s s' (f { kind := k, span := ⟨start, s.lastEnd⟩, children := ns })
      (g { kind := k, span := ⟨start', s.lastEnd + L.distance⟩, children := ns' }) P) :
    L.AlikeAt s s' (Parser.node k start ns >>= f) (Parser.node k start' ns' >>= g) P := by
  show L.AlikeAt s s' (f { kind := k, span := ⟨start, s.lastEnd⟩, children := ns })
    (g { kind := k, span := ⟨start', s'.lastEnd⟩, children := ns' }) P
  rw [like.reading]
  exact h

theorem nextOnLineIs {test : Kind → Bool} {f : Bool → Parser γ} {g : Bool → Parser δ}
    (like : L.Like s s') (h : ∀ b, L.AlikeAt s s' (f b) (g b) P) :
    L.AlikeAt s s' (Parser.nextOnLineIs test >>= f) (Parser.nextOnLineIs test >>= g) P := by
  intro k k' knots c u hrun
  rw [run_nextOnLineIs knots.operands.leads] at hrun
  rw [run_nextOnLineIs knots.leads]
  have like' := like.advance
  have next : s'.advance.token = s.advance.token.moved L.distance := like'.token_eq
  rw [next]
  exact h _ knots hrun

theorem nextIs {test : Kind → Bool} {f : Bool → Parser γ} {g : Bool → Parser δ} (like : L.Like s s')
    (h : L.AlikeAt s s' (f (test s.advance.token.kind)) (g (test s.advance.token.kind)) P) :
    L.AlikeAt s s' (Parser.nextIs test >>= f) (Parser.nextIs test >>= g) P := by
  intro k k' knots c u hrun
  rw [run_nextIs knots.operands.leads] at hrun
  rw [run_nextIs knots.leads]
  have next : s'.advance.token.kind = s.advance.token.kind := like.advance.kind_eq
  rw [next]
  exact h knots hrun

/-- A node that is made of the current token. -/
theorem leaf {make make' : Token → Node} (like : L.Like s s')
    (same : L.SameNode (make s.token) (make' (s.token.moved L.distance))) :
    L.AlikeAt s s' (do let t ← Parser.token; Parser.advance; return make t)
      (do let t ← Parser.token; Parser.advance; return make' t) fun n _ n' => L.SameNode n n' := by
  intro k k' knots n t hrun
  cases hrun
  refine ⟨_, _, rfl, ?_, like.advance⟩
  show L.SameNode (make s.token) (make' s'.token)
  rwa [like.token_eq]

theorem tokenNode (like : L.Like s s') (neutral : s.token.kind.isNeutral = true) :
    L.AlikeAt s s' Parser.tokenNode Parser.tokenNode fun n _ n' => L.SameNode n n' :=
  leaf like (by
    rw [Token.moved_span]
    exact .leaf rfl (.inr (.inr ⟨neutral, rfl⟩)) (Kind.ne_literal_of_isNeutral neutral))

/-- What is known of a goal that is read holds beside. -/
theorem need {goal : Goal} {Q : Node → State → Prop} (like : L.Like s s')
    (known : ∀ {k : Knot}, k.Operands → ∀ {n : Node} {t : State}, k goal s = some (n, t) → Q n t)
    (other : (goal == .construction) = false) :
    L.AlikeAt s s' (Parser.need goal) (Parser.need goal) fun n t n' => L.SameNode n n' ∧ Q n t := by
  intro k k' knots n t hrun
  obtain ⟨n', t', hrun', same, like'⟩ := knots.goals like (absurd · (ne_of_beq_false other)) hrun
  exact ⟨n', t', hrun', ⟨same, known knots.operands hrun⟩, like'⟩

end AlikeAt

namespace Alike

/-! ## Tokens -/

theorem expect (k : Kind) : L.Alike (expect k) (expect k) Eq := by
  refine kind.andThen fun next => ?_
  split
  · exact advance.andThen fun _ => .pure rfl
  · exact note.andThen fun _ => .pure rfl

theorem require (k : Kind) : L.Alike (require k) (require k) Eq :=
  (expect k).andThen fun _ => .pure rfl

theorem requireUnless (condition : Bool) (k : Kind) :
    L.Alike (requireUnless condition k) (requireUnless condition k) Eq := by
  unfold Parser.requireUnless
  split
  · exact .pure rfl
  · exact .require k

theorem accept (k : Kind) : L.Alike (accept k) (accept k) Eq := by
  refine kind.andThen fun next => ?_
  split
  · exact advance.andThen fun _ => .pure rfl
  · exact .pure rfl

theorem skipIf (condition : Bool) : L.Alike (skipIf condition) (skipIf condition) Eq := by
  unfold Parser.skipIf
  split
  · exact .advance
  · exact .pure rfl

theorem keep (role : MarkRole) : L.Alike (keep role) (keep role) L.SameMark := by
  refine token.bind fun t t' same => advance.andThen fun _ => .pure ?_
  subst same
  rw [SameMark, Token.moved_span]
  rfl

theorem keepIf (role : MarkRole) (k : Kind) :
    L.Alike (keepIf role k) (keepIf role k) L.SameMarks := by
  refine kind.andThen fun next => ?_
  split
  · exact (keep role).bind fun m m' same => .pure (.cons same .nil)
  · exact .pure .nil

/-- A token that is kept is of the kind that was asked for. -/
theorem keepWhen {C : Kind → Prop} [DecidablePred C] {role : MarkRole} {f f' : Mark → Parser γ}
    {g g' : Parser γ} {S : γ → γ → Prop}
    (yes : ∀ m m', C m.kind → L.SameMark m m' → L.Alike (f m) (f' m') S) (no : L.Alike g g' S) :
    L.Alike (do if C (← Parser.kind) then f (← Parser.keep role) else g)
      (do if C (← Parser.kind) then f' (← Parser.keep role) else g') S := by
  refine fun s s' like => .kind like ?_
  split
  · next isKind => exact .keep like (yes _ _ isKind rfl like.advance)
  · exact no like

/-! ## Looking ahead -/

theorem lookAhead (h : L.Alike p q R) : L.Alike (lookAhead p) (lookAhead q) R := by
  intro s s' like k k' knots a t hrun
  rw [lookAhead_run knots.operands.leads] at hrun
  obtain ⟨⟨a, u⟩, hp, heq⟩ := Option.map_eq_some_iff.1 hrun
  cases heq
  obtain ⟨b, u', hq, hab, -⟩ := h like knots hp
  refine ⟨b, s', ?_, hab, like⟩
  rw [lookAhead_run knots.leads, hq]
  rfl

theorem attempt {p : Parser (Option α)} {q : Parser (Option β)}
    (h : L.Alike p q (Option.Rel R)) : L.Alike (attempt p) (attempt q) (Option.Rel R) := by
  intro s s' like k k' knots a t hrun
  rw [attempt_run knots.operands.leads] at hrun
  obtain ⟨⟨a, u⟩, hp, heq⟩ := Option.map_eq_some_iff.1 hrun
  obtain ⟨b, u', hq, hab, like'⟩ := h like knots hp
  rw [attempt_run knots.leads, hq]
  cases hab with
  | none =>
    cases heq
    exact ⟨none, s', rfl, .none, like⟩
  | some hab =>
    cases heq
    exact ⟨some _, u', rfl, .some hab, like'⟩

theorem nextIs (test : Kind → Bool) : L.Alike (nextIs test) (nextIs test) Eq :=
  .lookAhead (advance.andThen fun _ => kind.andThen fun _ => .pure rfl)

theorem nextOnLineIs (test : Kind → Bool) :
    L.Alike (nextOnLineIs test) (nextOnLineIs test) Eq :=
  .lookAhead (advance.andThen fun _ => afterLineBreak.andThen fun _ => kind.andThen fun _ =>
    .pure rfl)

/-! ## The end of statements -/

theorem atStatementEnd : L.Alike atStatementEnd atStatementEnd Eq := by
  refine kind.andThen fun next => ?_
  split
  all_goals first | exact .pure rfl | exact .afterLineBreak

theorem endStatement : L.Alike endStatement endStatement Eq := by
  refine kind.andThen fun next => ?_
  split
  · exact .advance
  · refine atStatementEnd.andThen fun isEnd => ?_
    split
    · exact .pure rfl
    · exact .note

/-! ## Repetition -/

end Alike

section Loops

variable {round : α → Parser (α ⊕ γ)} {round' : β → Parser (β ⊕ δ)}
variable {P : α → State → β → Prop} {Q : γ → State → δ → Prop}

/-- A loop that ends in one text ends in the same way in the other one, where it might go on
longer. What relates the values may depend on how far the text has been read. -/
theorem AlikeAt.iterate
    (step : ∀ a b t t', P a t b → L.Like t t' →
      L.AlikeAt t t' (round a) (round' b) fun r u r' => Sum.LiftRel (P · u ·) (Q · u ·) r r')
    {a : α} {b : β} {n n' : Nat} (like : L.Like s s') (start : P a s b) (le : n ≤ n') :
    L.AlikeAt s s' (iterate round n a) (iterate round' n' b) Q := by
  induction n generalizing s s' a b n' with
  | zero => exact fun _ _ _ _ _ hrun => nomatch hrun
  | succ n ih =>
    cases n' with
    | zero => exact absurd le (Nat.not_succ_le_zero n)
    | succ n' =>
    refine .here like ((step a b s s' start like).bind fun r r' t t' hr like' => ?_)
    cases hr with
    | inl hab =>
      refine .here like' ?_
      simp only [Nat.add_lt_add_iff_right]
      split
      · exact ih like' hab (Nat.le_of_succ_le_succ le)
      · exact fun _ _ _ _ _ hrun => nomatch hrun
    | inr hcd => exact .pure like' hcd

theorem AlikeAt.loop
    (step : ∀ a b t t', P a t b → L.Like t t' →
      L.AlikeAt t t' (round a) (round' b) fun r u r' => Sum.LiftRel (P · u ·) (Q · u ·) r r')
    {a : α} {b : β} (like : L.Like s s') (start : P a s b) :
    L.AlikeAt s s' (loop round a) (loop round' b) Q :=
  AlikeAt.iterate step like start (Nat.add_le_add_right like.size_le 2)

theorem Alike.loop (step : ∀ a b, R a b → L.Alike (round a) (round' b) (Sum.LiftRel R S)) {a : α}
    {b : β} (start : R a b) : L.Alike (loop round a) (loop round' b) S := fun _ _ like =>
  AlikeAt.loop (P := fun a _ b => R a b) (fun a b _ _ hab like' => step a b hab like') like start

end Loops

namespace Alike

section Lists

variable {p p' : Parser α} {R : α → α → Prop}

theorem manyWhile {test : Parser Bool} (htest : L.Alike test test Eq) (item : L.Alike p p' R) :
    L.Alike (manyWhile test p) (manyWhile test p') (List.Forall₂ R) := by
  refine loop (R := List.Forall₂ R) (fun items items' same => htest.andThen fun more => ?_) .nil
  split
  · exact item.bind fun a a' h => .pure (.inl (.cons h same))
  · exact .pure (.inr (List.rel_reverse same))

/-- An item with a comma behind it goes on a list, and without one ends it. -/
theorem comma {items items' : List α} (same : List.Forall₂ R items items') :
    L.Alike (do if ← Parser.accept .comma then return .inl items else return .inr items.reverse)
      (do if ← Parser.accept .comma then return .inl items' else return .inr items'.reverse)
      (Sum.LiftRel (List.Forall₂ R) (List.Forall₂ R)) := by
  refine (accept .comma).andThen fun found => ?_
  split
  · exact .pure (.inl same)
  · exact .pure (.inr (List.rel_reverse same))

theorem commaList (stop : Kind → Bool) (item : L.Alike p p' R) :
    L.Alike (commaList stop p) (commaList stop p') (List.Forall₂ R) := by
  refine loop (R := List.Forall₂ R) (fun items items' same => kind.andThen fun next => ?_) .nil
  split
  · exact .pure (.inr (List.rel_reverse same))
  · exact item.bind fun a a' h => comma (.cons h same)

theorem someByComma (item : L.Alike p p' R) :
    L.Alike (someByComma p) (someByComma p') (List.Forall₂ R) :=
  loop (R := List.Forall₂ R) (fun _ _ same => item.bind fun _ _ h => comma (.cons h same)) .nil

end Lists

/-! ## Nodes -/

section Nodes

variable {k : Kind} {start start' : Nat} {ns ns' : List Node}

/-- A node of related parts, to which more is added. -/
theorem making {f : Node → Parser γ} {g : Node → Parser δ}
    (h : ∀ stop, L.Alike (f { kind := k, span := ⟨start, stop⟩, children := ns })
      (g { kind := k, span := ⟨start', stop + L.distance⟩, children := ns' }) S) :
    L.Alike (Parser.node k start ns >>= f) (Parser.node k start' ns' >>= g) S :=
  fun s _ like => .node like (h s.lastEnd like)

theorem node (place : L.SamePlace start start') (same : L.SameNodes ns ns')
    (neutral : k.isNeutral = true) :
    L.Alike (node k start ns) (node k start' ns') L.SameNode :=
  lastEnd.bind fun _ _ hstop => hstop ▸ .pure (.made place same rfl rfl neutral)

theorem missing {detail : Detail} (fixed : detail = detail.moved L.distance)
    (noLiteral : k ≠ .objectLiteralExpression) :
    L.Alike (missing k detail) (missing k detail) L.SameNode := by
  refine here.bind fun start start' place => ?_
  rw [place]
  exact .pure (.leaf fixed (.inl rfl) noLiteral)

theorem afterToken {p p' : Parser Node} (k : Kind) (role : Role) (part : L.Alike p p' L.SameNode) :
    L.Alike (afterToken k role p) (afterToken k role p') L.SameNodes := by
  refine (accept k).andThen fun found => ?_
  split
  · exact part.bind fun n n' same => .pure (.cons (same.inRole role) .nil)
  · exact .pure .nil

end Nodes

/-! ## Context -/

theorem nested (h : L.Alike p q R) : L.Alike (nested p) (nested q) R := by
  intro s s' like k k' knots a t hrun
  rw [nested_run knots.operands.leads] at hrun
  obtain ⟨⟨a, u⟩, hp, heq⟩ := Option.map_eq_some_iff.1 hrun
  cases heq
  have like₁ : L.Like { s with depth := s.depth + 1 } { s' with depth := s'.depth + 1 } :=
    ⟨like.exact, like.reading, like.inExtends, congrArg (· + 1) like.depth, like.size_le⟩
  obtain ⟨b, u', hq, hab, like'⟩ := h like₁ knots hp
  refine ⟨b, { u' with depth := s'.depth }, ?_, hab, like'.exact, like'.reading, like'.inExtends,
    like.depth, like'.size_le⟩
  rw [nested_run knots.leads, hq]
  rfl

theorem deeper {p q : Parser Node} (h : L.Alike p q L.SameNode) :
    L.Alike (deeper p) (deeper q) L.SameNode := by
  refine depth.andThen fun now => ?_
  split
  · exact .nested h
  · exact note.andThen fun _ => .missing rfl Kind.noConfusion

theorem withExtends (inExtends : Bool) (h : L.Alike p q R) :
    L.Alike (withExtends inExtends p) (withExtends inExtends q) R := by
  intro s s' like k k' knots a t hrun
  obtain ⟨⟨a, u⟩, hp, heq⟩ := Option.map_eq_some_iff.1 hrun
  cases heq
  have like₁ : L.Like { s with inExtends } { s' with inExtends } :=
    ⟨like.exact, like.reading, rfl, like.depth, like.size_le⟩
  obtain ⟨b, u', hq, hab, like'⟩ := h like₁ knots hp
  refine ⟨b, { u' with inExtends := s'.inExtends }, ?_, hab, like'.exact, like'.reading,
    like.inExtends, like'.depth, like'.size_le⟩
  exact congrArg (Option.map _) hq

end Alike
end Placement
end FactorySync
