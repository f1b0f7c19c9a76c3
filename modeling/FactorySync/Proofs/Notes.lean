import FactorySync.Proofs.Reading

/-!
# Where problems are noted

Scanner and parser note a problem at a token, or at a comment that is never closed. Both lie in the
text, so every note names a span that cuts the text between characters (`Run.located`).
-/

namespace FactorySync

/-- The diagnostic names a place in the text. -/
def Diagnostic.Located (text : List Char) (d : Diagnostic) : Prop :=
  ∃ span, d.span = some span ∧ span.Cuts text

theorem StandsAt.cuts {text cs ds : List Char} {p q : Nat} (h : StandsAt text p cs)
    (h' : StandsAt text q ds) (le : p ≤ q) : (⟨p, q⟩ : Span).Cuts text :=
  ⟨le, h.isBoundary, h'.isBoundary⟩

namespace Scanner

variable {text : List Char} {s : Scanner}

/-- All that the scanner has noted names a place in the text. -/
def Located (text : List Char) (s : Scanner) : Prop := ∀ d ∈ s.diagnostics, d.Located text

theorem Sound.token_cuts (h : s.Sound text) : s.token.span.Cuts text :=
  h.place.cuts h.rest (Nat.le_add_right _ _)

theorem Located.note (h : s.Located text) {span : Span} (cuts : span.Cuts text)
    (problem : Option Problem) : (s.note span problem).Located text := by
  cases problem with
  | none => exact h
  | some p =>
    intro d hd
    rcases List.mem_append.1 hd with hd | hd
    · exact h d hd
    · obtain rfl := List.mem_singleton.1 hd
      exact ⟨span, rfl, cuts⟩

theorem Located.take (h : s.Located text) {start : Nat} {cs : List Char}
    (place : StandsAt text start cs) (flags : TokenFlags) (l : Lexeme) :
    (s.take start flags l cs).Located text := by
  have behind : StandsAt text (start + byteLength (cs.take l.size)) (cs.drop l.size) :=
    StandsAt.after (by rwa [List.take_append_drop])
  unfold Scanner.take
  refine Located.note ?_ (place.cuts behind (Nat.le_add_right _ _)) l.problem
  exact h

theorem Located.retake (h : s.Located text) (sound : s.Sound text) (l : Lexeme) :
    (s.retake l).Located text := h.take sound.place s.token.flags l

theorem Located.rescan (h : s.Located text) (sound : s.Sound text) (way : Rescan) :
    (s.rescan way).Located text := by
  cases way <;> simp only [Scanner.rescan, rescanGreaterThan, rescanSlash, rescanTemplate] <;>
    split <;> first | exact h.retake sound _ | exact h

/-- What is left of the trivia from some character on ends where the next token begins. -/
theorem comment_cuts (place : StandsAt text s.token.stop s.rest) (n : Nat) :
    (⟨s.token.stop + byteLength s.gap - byteLength (s.gap.drop n),
      s.token.stop + byteLength s.gap⟩ : Span).Cuts text := by
  have behind : StandsAt text (s.token.stop + byteLength s.gap) s.ahead :=
    StandsAt.after (by rwa [gap_append_ahead])
  have before : StandsAt text (s.token.stop + byteLength (s.gap.take n))
      (s.gap.drop n ++ s.ahead) := by
    refine StandsAt.after ?_
    rwa [← List.append_assoc, List.take_append_drop, gap_append_ahead]
  have split : byteLength s.gap = byteLength (s.gap.take n) + byteLength (s.gap.drop n) := by
    rw [← byteLength_append, List.take_append_drop]
  have start : s.token.stop + byteLength s.gap - byteLength (s.gap.drop n) =
      s.token.stop + byteLength (s.gap.take n) := by omega
  rw [start]
  exact before.cuts behind (by omega)

theorem Located.next (h : s.Located text) (place : StandsAt text s.token.stop s.rest) :
    s.next.Located text := by
  have behind : StandsAt text (s.token.stop + byteLength s.gap) s.ahead :=
    StandsAt.after (by rwa [gap_append_ahead])
  have comment := fun n => h.note (comment_cuts place n) (some .unterminatedComment)
  unfold Scanner.next
  dsimp only
  split
  · next nothing =>
    rw [ahead, nothing] at behind
    refine Located.take ?_ behind _ _
    split
    · exact h
    · exact comment _
  · next c cs more =>
    refine Located.take ?_ behind _ _
    split
    · exact h
    · exact comment _

end Scanner

namespace Parse

variable {text : List Char} {r s : Reading}

/-- All that has been noted so far names a place in the text. -/
structure Reading.Located (text : List Char) (r : Reading) : Prop where
  notes : ∀ d ∈ r.notes, d.Located text
  scanner : r.scanner.Located text

namespace Reading

theorem Located.advance (h : r.Located text) (place : StandsAt text r.token.stop r.scanner.rest) :
    r.advance.Located text := ⟨h.notes, h.scanner.next place⟩

theorem Located.note (h : r.Located text) (sound : r.Sound text) (p : Problem) :
    (r.note p).Located text := by
  refine ⟨fun d hd => ?_, by rw [note_scanner]; exact h.scanner⟩
  rcases r.note_eq p with ⟨heq, -⟩ | hnew
  · exact h.notes d (heq ▸ hd)
  · rw [hnew] at hd
    rcases List.mem_cons.1 hd with rfl | hd
    · exact ⟨r.token.span, rfl, sound.scanner.token_cuts⟩
    · exact h.notes d hd

end Reading

theorem Step.located (h : Step r s) (sound : r.Sound text) (located : r.Located text) :
    s.Located text := by
  cases h with
  | advance => exact located.advance sound.scanner.rest
  | rescan way => exact ⟨located.notes, located.scanner.rescan sound.scanner way⟩
  | note p => exact located.note sound p
  | passOver p =>
    refine (located.note sound p).advance ?_
    rw [Reading.note_token, Reading.note_scanner]
    exact sound.scanner.rest

theorem Run.located (h : Run r s) (sound : r.Sound text) (located : r.Located text) :
    s.Located text := by
  induction h with
  | refl => exact located
  | step run last ih => exact last.located (run.sound sound) ih

end Parse
end FactorySync
