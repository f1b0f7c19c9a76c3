import FactorySync.Proofs.Lexemes
import FactorySync.Proofs.Notes
import FactorySync.Proofs.Tiling
import FactorySync.Proofs.Totality.Statements

/-!
# Every text is read to the end

Reading a file gives up as soon as a loop goes on without having consumed a token, a counter would
go below zero, or more goals are nested than the length of the text allows. None of this happens
whatever the text (`SourceFile.parse?_total`), all that is cut out of the text lies in it, and so
does every place at which a problem is noted. How deep goals may be nested is a matter of the text
alone: the stack of the machine that runs the parser is not part of the model.
-/

namespace FactorySync

namespace Parser

open Parse

variable {α β : Type}

/-- The rounds of a loop from one state to another, all but the last of which consume a token. -/
inductive Rounds (knot : Knot) (round : α → Parser (α ⊕ β)) : α → State → β → State → Prop
  | last {a : α} {b : β} {s t : State} (run : (round a).run knot s = some (.inr b, t)) :
    Rounds knot round a s b t
  | more {a a' : α} {b : β} {s t u : State} (run : (round a).run knot s = some (.inl a', t))
    (consumes : s.here < t.here) (rest : Rounds knot round a' t b u) : Rounds knot round a s b u

/-- A loop that comes to an end has consumed a token in every round but the last. -/
theorem loop_rounds {knot : Knot} {round : α → Parser (α ⊕ β)} {a : α} {b : β} {s t : State}
    (h : (loop round a).run knot s = some (b, t)) : Rounds knot round a s b t := by
  have rounds : ∀ n a s, (iterate round n a).run knot s = some (b, t) →
      Rounds knot round a s b t := by
    intro n
    induction n with
    | zero =>
      intro a s h
      exact absurd h (Option.some_ne_none _).symm
    | succ n ih =>
      intro a s h
      rw [iterate] at h
      obtain ⟨start, _, hstart, h⟩ := run_bind h
      cases hstart
      obtain ⟨result, u, hround, h⟩ := run_bind h
      cases result with
      | inl a' =>
        obtain ⟨now, _, hnow, h⟩ := run_bind h
        cases hnow
        split at h
        · next consumes => exact .more hround consumes (ih a' u h)
        · cases h
      | inr b' =>
        cases h
        exact .last hround
  rw [loop] at h
  obtain ⟨size, _, hsize, h⟩ := run_bind h
  cases hsize
  exact rounds _ a s h

/-- A counter that is counted down was above zero. -/
theorem countDown_positive {knot : Knot} {n m : Nat} {s t : State}
    (h : (countDown n).run knot s = some (m, t)) : n = m + 1 := by
  cases n with
  | zero => exact absurd h (Option.some_ne_none _).symm
  | succ n =>
    cases h
    rfl

/-- Goals worth up to the length of the text may be nested, and no more are asked for. -/
theorem fileStatements_answers (path : String) (text : List Char) :
    fileStatements.Answers (allowance text.length)
      { scanner := .ofText path text, size := text.length } fun _ _ => True := by
  rw [fileStatements, answers_advance]
  have within : Within (allowance text.length) 5
      { toReading := firstReading path text, size := text.length } := by
    have left_le : (firstReading path text).left ≤ text.length :=
      Scanner.left_next_le (.ofText path text)
    refine ⟨⟨⟨text, firstReading_sound path text⟩, Nat.le_succ_of_le left_le⟩, ?_⟩
    show 8 * (firstReading path text).left + 5 ≤ 8 * (text.length + 2)
    omega
  refine Total.loop (fun found => ?_) _ within
  refine .bind (statements_total endsBlock_endsStatements) fun more => ?_
  intro limit s h
  rw [answers_kind]
  split
  · next brace =>
    refine .bind .note fun _ t l ht => ?_
    subst ht
    refine (h.leads l).go ((h.leads l).advance ?_) fun _ u _ _ moved => .pure fun _ => ?_
    · simp [brace]
    · rwa [Reading.note_here] at moved
  · exact .pure fun isMore => by cases isMore

theorem fileStatements_run {knot : Knot} (leads : knot.Leads) {path : String} {text : List Char}
    {ns : List Node} {t : State} (h : fileStatements.run knot
      { scanner := .ofText path text, size := text.length } = some (ns, t)) :
    Run (firstReading path text) t.toReading := by
  obtain ⟨_, first, hfirst, hrest⟩ := run_bind h
  cases hfirst
  exact (Parser.leads _ leads hrest).run

end Parser

namespace SourceFile

open FactorySync.Parser Parse

variable {path : String} {text : List Char}

theorem parse?_isSome (path : String) (text : List Char) :
    parse? path text = some (parse path text) := by
  obtain ⟨statements, t, hrun, -⟩ := fileStatements_answers path text (knot_leads _) (knot_grants _)
  rw [parse, parse?, hrun]
  rfl

theorem firstReading_located (path : String) (text : List Char) :
    (firstReading path text).Located text :=
  Reading.Located.advance ⟨nofun, nofun⟩ (.zero text)

theorem notes_located : ∀ d ∈ (parse path text).notes, d.Located text := by
  obtain ⟨statements, t, hrun, -⟩ := fileStatements_answers path text (knot_leads _) (knot_grants _)
  have located : t.Located text := (fileStatements_run (knot_leads _) hrun).located
    (firstReading_sound path text) (firstReading_located path text)
  rw [parse, parse?, hrun]
  intro d hd
  rcases List.mem_append.1 ((List.mergeSort_perm ..).mem_iff.1 hd) with hd | hd
  · exact located.notes d (List.mem_reverse.1 hd)
  · exact located.scanner d hd

/-- What lies between the beginning of a token and the end of one that is consumed later. -/
theorem consumed_cuts {r s : Reading} (run : Run (firstReading path text) r)
    (more : Run r.advance s) : (⟨r.here, s.lastEnd⟩ : Span).Cuts text := by
  have sound := run.sound (firstReading_sound path text)
  refine ⟨?_, sound.here_boundary, (more.sound sound.advance).lastEnd_boundary⟩
  exact Nat.le_trans r.here_le_stop (more.lastEnd_le sound.advance)

/-- Whatever the text, it is read to the end. So no loop goes on without having consumed a token, no
counter of brackets or of nesting goes below zero, and goals are not nested deeper than the length
of the text allows, since any of these would leave no result. Wherever reading has come to, the
current token is the piece of the text that its span names, and the span from any token that is
consumed to the end of the last one lies between characters of the text; no token takes more
characters than there are. Every note names such a span too. -/
theorem parse?_total (path : String) (text : List Char) :
    parse? path text = some (parse path text) ∧
    (∀ {α β : Type} {round : α → Parser (α ⊕ β)} {knot : Knot} {a : α} {b : β} {s t : State},
      (loop round a).run knot s = some (b, t) → Rounds knot round a s b t) ∧
    (∀ {knot : Knot} {n m : Nat} {s t : State},
      (countDown n).run knot s = some (m, t) → n = m + 1) ∧
    (∀ r, Run (firstReading path text) r →
      r.token.span.Cuts text ∧ r.token.source = r.token.span.slice text ∧
      ∀ s, Run r.advance s → (⟨r.here, s.lastEnd⟩ : Span).Cuts text) ∧
    (∀ l cs, Lexeme.TakenFrom l cs → l.size ≤ cs.length) ∧
    ∀ d ∈ (parse path text).notes, ∃ span, d.span = some span ∧ span.Cuts text ∧
      span.stop ≤ byteLength text := by
  refine ⟨parse?_isSome path text, loop_rounds, countDown_positive, fun r run => ?_,
    fun l cs h => h.size_le, ?_⟩
  · have sound := run.sound (firstReading_sound path text)
    exact ⟨sound.scanner.token_cuts, sound.scanner.place.slice.symm, fun s => consumed_cuts run⟩
  · intro d hd
    obtain ⟨span, hspan, cuts⟩ := notes_located d hd
    exact ⟨span, hspan, cuts, cuts.stop_le⟩

end SourceFile
end FactorySync
