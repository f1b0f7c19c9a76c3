import FactorySync.Proofs.Placement.Files

/-!
# Notes in the order of the text

The parser notes a problem at the token where it stands, unless its last note is about the same
place, and it never goes back in the text but to where a trial began. `Visits` is this way through
a text: single moves, with going back. Since a trial is undone (`Visits.extends`), a move is all
that has to be looked at (`Reading.NotesAscend.note`, `Reading.NotesAscend.moved`): at every point
of the way the notes stand in the order of the text, no two at one place and none behind the current
token (`Visits.notesAscend`). Whatever a parser does is such a way (`Parser.visits`).
-/

namespace FactorySync

open Parse

namespace Parse

namespace Reading

/-- In front of the first token. -/
def atStart (path : String) (text : List Char) : Reading := { scanner := .ofText path text }

/-- Where the notes begin, in the order in which they were made. -/
def noteStarts (r : Reading) : List Nat :=
  (r.notes.filterMap fun d => d.span.map (·.start)).reverse

/-- Every note has its own place, behind those of earlier notes and up to the current token. -/
structure NotesAscend (r : Reading) : Prop where
  placed : ∀ d ∈ r.notes, d.span.isSome = true
  ascending : r.noteStarts.Pairwise (· < ·)
  le_here : ∀ start ∈ r.noteStarts, start ≤ r.here

end Reading

/-- The second reading is on the way from the first. A parse moves on, reads the current token anew,
notes problems, and goes back to where a trial began. -/
inductive Visits : Reading → Reading → Prop
  | refl (r : Reading) : Visits r r
  | advance {r s : Reading} (way : Visits r s) : Visits r s.advance
  | rescan {r s : Reading} (way : Visits r s) (again : Rescan) : Visits r (s.rescan again)
  | note {r s : Reading} (way : Visits r s) (p : Problem) : Visits r (s.note p)
  | back {r s t : Reading} (way : Visits r s) (trial : Visits s t) : Visits r (s.backTo t)

variable {r s t : Reading}

/-- Whatever is noted on trial is forgotten on the way back, and nothing else is. -/
theorem Visits.extends (h : Visits r s) : r.Extends s := by
  induction h with
  | refl r => exact .refl r
  | advance _ ih => exact ih.trans (Reading.extends_advance _)
  | rescan _ again ih => exact ih.trans (Step.rescan again _).extends
  | note _ p ih => exact ih.trans (Reading.extends_note p _)
  | back _ _ ih trial =>
    rw [trial.backTo]
    exact ih

theorem Visits.trans (h : Visits r s) (h' : Visits s t) : Visits r t := by
  induction h' with
  | refl => exact h
  | advance _ ih => exact (ih h).advance
  | rescan _ again ih => exact (ih h).rescan again
  | note _ p ih => exact (ih h).note p
  | back _ trial ih => exact (ih h).back trial

theorem Step.visits (h : Step r s) : Visits r s := by
  cases h with
  | advance => exact (Visits.refl r).advance
  | rescan way => exact (Visits.refl r).rescan way
  | note p => exact (Visits.refl r).note p
  | passOver p => exact ((Visits.refl r).note p).advance

theorem Run.visits (h : Run r s) : Visits r s := by
  induction h with
  | refl => exact .refl r
  | step _ last ih => exact ih.trans last.visits

/-! ## Moves keep the order -/

namespace Reading.NotesAscend

theorem atStart (path : String) (text : List Char) : (atStart path text).NotesAscend where
  placed := nofun
  ascending := .nil
  le_here := nofun

/-- Moving on leaves the notes as they are. -/
theorem moved (h : r.NotesAscend) (same : s.notes = r.notes) (le : r.here ≤ s.here) :
    s.NotesAscend where
  placed := same ▸ h.placed
  ascending := by
    rw [noteStarts, same]
    exact h.ascending
  le_here start mem := by
    rw [noteStarts, same] at mem
    exact Nat.le_trans (h.le_here start mem) le

/-- If the last note is about another place, all notes are about earlier ones. -/
theorem lt_here (h : r.NotesAscend)
    (last : (r.notes.head?.bind (·.span)).map (·.start) ≠ some r.here) :
    ∀ start ∈ r.noteStarts, start < r.here := by
  obtain ⟨placed, ascending, le⟩ := h
  unfold noteStarts at *
  rw [List.pairwise_reverse] at ascending
  cases notes : r.notes with
  | nil => exact nofun
  | cons d ds =>
    obtain ⟨span, hspan⟩ := Option.isSome_iff_exists.1 (placed d (by simp [notes]))
    simp only [notes, List.head?_cons, Option.bind_some, hspan, Option.map_some, ne_eq,
      Option.some.injEq] at last
    simp only [notes, List.filterMap_cons, hspan, Option.map_some, List.mem_reverse,
      List.mem_cons, List.pairwise_cons] at ascending le ⊢
    have first := le span.start (.inl rfl)
    rintro start (rfl | mem)
    · omega
    · have := ascending.1 start mem
      omega

theorem note (h : r.NotesAscend) (p : Problem) : (r.note p).NotesAscend := by
  by_cases repeated : (r.notes.head?.bind (·.span)).map (·.start) = some r.here
  · rwa [Reading.note, if_pos repeated]
  have before := h.lt_here repeated
  rw [Reading.note, if_neg repeated]
  have starts : noteStarts { r with notes := .ofProblem r.scanner.file r.token.span p :: r.notes } =
      r.noteStarts ++ [r.here] := by
    simp [noteStarts, Diagnostic.ofProblem, Diagnostic.locatedAt, here, Token.span]
  refine ⟨List.forall_mem_cons.2 ⟨rfl, h.placed⟩, ?_, fun start mem => ?_⟩
  · rw [starts, List.pairwise_append]
    refine ⟨h.ascending, List.pairwise_singleton _ _, fun start mem here' isHere => ?_⟩
    obtain rfl := List.mem_singleton.1 isHere
    exact before start mem
  · rw [starts] at mem
    rcases List.mem_append.1 mem with mem | mem
    · exact h.le_here start mem
    · exact Nat.le_of_eq (List.mem_singleton.1 mem)

end Reading.NotesAscend

/-- On the way from a reading whose notes are in order they stay so. -/
theorem Visits.notesAscend (h : Visits r s) (start : r.NotesAscend) : s.NotesAscend := by
  induction h with
  | refl => exact start
  | advance _ ih => exact (ih start).moved rfl (Step.advance _).here_le
  | rescan _ again ih => exact (ih start).moved rfl (Step.rescan again _).here_le
  | note _ p ih => exact (ih start).note p
  | back _ trial ih =>
    rw [trial.extends.backTo]
    exact ih start

end Parse

namespace Parser

/-- A parser goes on from where it begins, and back to there if what it read was on trial. -/
theorem visits {α : Type} {p : Parser α} {n : Nat} {s t : State} {a : α}
    (hrun : p.run (knot n) s = some (a, t)) : Visits s.toReading t.toReading :=
  (p.leads (knot_leads n) hrun).run.visits

end Parser

namespace SourceFile

open FactorySync.Parser

/-- At every point of a parse the parser's notes begin at places in ascending order, none behind the
current token. Its points are those on the way from the start of the text: a parser that begins at
one of them ends at one, and so it does if what it read was on trial. The notes on the file are those
at the last of them, with those of the scanner. -/
theorem notes_ascend (path : String) (text : List Char) :
    (∀ r, Visits (Reading.atStart path text) r → r.NotesAscend) ∧
    (∀ {α : Type} (p : Parser α) (n : Nat) (s : State) (a : α) (t : State),
      Visits (Reading.atStart path text) s.toReading → p.run (knot n) s = some (a, t) →
        Visits (Reading.atStart path text) t.toReading ∧
        Visits (Reading.atStart path text) (s.backTo t).toReading) ∧
    ∃ r, Visits (Reading.atStart path text) r ∧
      (parse path text).notes = Diagnostics.sort (r.notes.reverse ++ r.scanner.diagnostics) := by
  refine ⟨fun r way => way.notesAscend (.atStart path text), fun p n s a t way hrun => ?_, ?_⟩
  · exact ⟨way.trans (visits hrun), way.back (visits hrun)⟩
  · obtain ⟨ns, t, hrun, -, notes⟩ := parse_run path text
    exact ⟨t.toReading, (Visits.refl _).advance.trans (visits hrun), notes⟩

/-- What is noted on trial is gone, and the second note at the first `)` repeats its place. -/
theorem notes_ascend_trial :
    let first := (Reading.atStart "a.ts" ") )".toList).advance.note .statementExpected
    let back := first.backTo (first.advance.note .typeExpected)
    let r := (back.note .expressionExpected).advance.note .statementExpected
    Visits (Reading.atStart "a.ts" ") )".toList) r ∧ r.noteStarts = [0, 2] ∧ r.NotesAscend := by
  intro first back r
  have way : Visits (Reading.atStart "a.ts" ") )".toList) back :=
    .back (.note (.advance (.refl _)) _) (.note (.advance (.refl _)) _)
  have whole : Visits (Reading.atStart "a.ts" ") )".toList) r := .note (.advance (.note way _)) _
  exact ⟨whole, by decide +kernel, (notes_ascend "a.ts" ") )".toList).1 r whole⟩

end SourceFile
end FactorySync
