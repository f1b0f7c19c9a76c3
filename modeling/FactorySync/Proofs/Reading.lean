import FactorySync.Proofs.Scanning
import FactorySync.Parse.Basic

/-!
# What holds while a file is read

`Reading.Sound text r` is the invariant of reading: the scanner is sound, only trivia lies between
the last consumed token and the current one, and the last note is no later than the current token.
Every move keeps it (`Run.sound`) and none goes back in the text (`Run.here_le`, `Run.lastEnd_le`).

Notes are only ever added, so a reading without errors had none before (`Run.clean_of`). An error is
never dropped on a sound reading (`Reading.not_clean_note`): the note that would make it redundant
is an error itself, since a mere warning is noted at a token that is consumed at once. Hence what a
parser does after noting an error need not be considered for files without errors.
-/

namespace FactorySync
namespace Parse

namespace Reading

variable {text : List Char} {r : Reading}

@[simp] theorem advance_lastEnd (r : Reading) : r.advance.lastEnd = r.token.stop := rfl

@[simp] theorem advance_notes (r : Reading) : r.advance.notes = r.notes := rfl

@[simp] theorem rescan_lastEnd (way : Rescan) (r : Reading) :
    (r.rescan way).lastEnd = r.lastEnd := rfl

@[simp] theorem rescan_notes (way : Rescan) (r : Reading) : (r.rescan way).notes = r.notes := rfl

@[simp] theorem rescan_here (way : Rescan) (r : Reading) : (r.rescan way).here = r.here :=
  Scanner.rescan_start way r.scanner

@[simp] theorem note_scanner (p : Problem) (r : Reading) : (r.note p).scanner = r.scanner := by
  unfold note
  split <;> rfl

@[simp] theorem note_lastEnd (p : Problem) (r : Reading) : (r.note p).lastEnd = r.lastEnd := by
  unfold note
  split <;> rfl

@[simp] theorem note_token (p : Problem) (r : Reading) : (r.note p).token = r.token := by
  simp [token]

@[simp] theorem note_here (p : Problem) (r : Reading) : (r.note p).here = r.here := by
  simp [here]

/-- A note is made or it would repeat one at the same place. -/
theorem note_eq (p : Problem) (r : Reading) :
    (r.note p = r ∧ (r.notes.head?.bind (·.span)).map (·.start) = some r.here) ∨
      (r.note p).notes = .ofProblem r.scanner.file r.token.span p :: r.notes := by
  unfold note
  split
  · next h => exact .inl ⟨rfl, h⟩
  · exact .inr rfl

/-- The invariant of reading. -/
structure Sound (text : List Char) (r : Reading) : Prop where
  scanner : r.scanner.Sound text
  gap : ∃ gap, StandsAt text r.lastEnd (gap ++ r.scanner.fromToken) ∧
    (Trivia.ofChars (r.lastEnd == 0) (gap ++ r.scanner.fromToken)).size = gap.length
  /-- The last note is at or before the current token, and no mere warning if it is at it. -/
  noted : ∀ d ∈ r.notes.head?, ∃ span, d.span = some span ∧ span.start ≤ r.here ∧
    (span.start = r.here → d.isError = true)

/-- The invariant, for whatever text is read. -/
def Valid (r : Reading) : Prop := ∃ text, r.Sound text

/-- No error is noted. -/
structure Clean (r : Reading) : Prop where
  notes : ∀ d ∈ r.notes, d.isError = false
  scanner : ∀ d ∈ r.scanner.diagnostics, d.isError = false

theorem Valid.isToken (h : r.Valid) : r.token.kind.isToken = true := by
  obtain ⟨text, sound⟩ := h
  exact sound.scanner.isToken

theorem Sound.lastEnd_le_here (h : r.Sound text) : r.lastEnd ≤ r.here := by
  obtain ⟨gap, hgap, -⟩ := h.gap
  have heq := hgap.after.length_eq
  have := h.scanner.length_eq
  simp only [here, token]
  omega

theorem here_le_stop (r : Reading) : r.here ≤ r.token.stop := Nat.le_add_right _ _

theorem Sound.here_lt_stop (h : r.Sound text) (more : r.token.kind ≠ .endOfFile) :
    r.here < r.token.stop := by
  have := h.scanner.length_pos more
  simp only [here, Token.stop, token]
  omega

theorem here_advance (r : Reading) : r.advance.here = r.token.stop + byteLength r.scanner.gap :=
  Scanner.next_start r.scanner

theorem stop_le_here_advance (r : Reading) : r.token.stop ≤ r.advance.here := by
  rw [here_advance]
  exact Nat.le_add_right _ _

/-! ## Notes -/

/-- A note of an error is never dropped without an error that stands for it. -/
theorem Sound.not_clean_note (h : r.Sound text) {p : Problem}
    (isError : p.template.category = .error) : ¬ (r.note p).Clean := by
  intro clean
  rcases r.note_eq p with ⟨heq, hsame⟩ | hnew
  · rw [heq] at clean
    obtain ⟨d, hd⟩ : ∃ d, r.notes.head? = some d := by
      cases hn : r.notes.head? with
      | none => simp [hn] at hsame
      | some d => exact ⟨d, rfl⟩
    obtain ⟨span, hspan, -, herror⟩ := h.noted d hd
    rw [hd, Option.bind_some, hspan, Option.map_some, Option.some.injEq] at hsame
    have := clean.notes d (List.mem_of_head? hd)
    simp [herror hsame] at this
  · have := clean.notes (.ofProblem r.scanner.file r.token.span p) (by simp [hnew])
    simp [Diagnostic.ofProblem, Diagnostic.ofTemplate, Diagnostic.locatedAt, Diagnostic.isError,
      isError] at this

theorem Sound.noted_note (h : r.Sound text) (p : Problem) :
    ∀ d ∈ (r.note p).notes.head?, ∃ span, d.span = some span ∧ span.start ≤ r.here ∧
      (p.template.category = .error → span.start = r.here → d.isError = true) := by
  intro d hd
  rcases r.note_eq p with ⟨heq, -⟩ | hnew
  · rw [heq] at hd
    obtain ⟨span, hspan, hle, herror⟩ := h.noted d hd
    exact ⟨span, hspan, hle, fun _ => herror⟩
  · rw [hnew, List.head?_cons, Option.mem_some_iff] at hd
    subst hd
    exact ⟨r.token.span, rfl, Nat.le_refl _, fun isError _ => by
      simp [Diagnostic.ofProblem, Diagnostic.ofTemplate, Diagnostic.locatedAt, Diagnostic.isError,
        isError]⟩

theorem Sound.note (h : r.Sound text) {p : Problem} (isError : p.template.category = .error) :
    (r.note p).Sound text where
  scanner := by simpa using h.scanner
  gap := by simpa using h.gap
  noted d hd := by
    obtain ⟨span, hspan, hle, herror⟩ := h.noted_note p d hd
    exact ⟨span, hspan, by simpa using hle, fun heq => herror isError (by simpa using heq)⟩

/-! ## Moves -/

/-- Reading on keeps the invariant if all notes so far are before what is consumed. -/
theorem sound_advance (place : StandsAt text r.token.stop r.scanner.rest)
    (before : ∀ d ∈ r.notes.head?, ∃ span, d.span = some span ∧ span.start ≤ r.advance.here ∧
      (span.start = r.advance.here → d.isError = true)) : r.advance.Sound text where
  scanner := Scanner.sound_next place
  gap := by
    have hrest : r.scanner.gap ++ r.scanner.next.fromToken = r.scanner.rest := by
      rw [Scanner.next_fromToken, Scanner.gap_append_ahead]
    refine ⟨r.scanner.gap, ?_, ?_⟩
    · rw [advance, hrest]
      exact place
    · rw [advance, hrest]
      exact r.scanner.gap_length.symm
  noted := before

theorem Sound.advance (h : r.Sound text) : r.advance.Sound text := by
  refine sound_advance h.scanner.rest fun d hd => ?_
  obtain ⟨span, hspan, hle, herror⟩ := h.noted d hd
  have hhere := r.here_le_stop
  have hstop := r.stop_le_here_advance
  exact ⟨span, hspan, by omega, fun heq => herror (by omega)⟩

theorem Sound.rescan (h : r.Sound text) (way : Rescan) : (r.rescan way).Sound text where
  scanner := h.scanner.rescan way
  gap := by
    simp only [Reading.rescan, Scanner.rescan_fromToken]
    exact h.gap
  noted := by simpa using h.noted

/-- A token that is passed over is left behind, so it does not matter what was noted at it. -/
theorem Sound.passOver (h : r.Sound text) (more : r.token.kind ≠ .endOfFile) (p : Problem) :
    (r.note p).advance.Sound text := by
  refine sound_advance (by simpa [token] using h.scanner.rest) fun d hd => ?_
  obtain ⟨span, hspan, hle, -⟩ := h.noted_note p d hd
  have hlt := h.here_lt_stop more
  have hstop := (r.note p).stop_le_here_advance
  rw [note_token] at hstop
  exact ⟨span, hspan, by omega, fun heq => absurd heq (by omega)⟩

end Reading

open Reading

variable {text : List Char} {r s : Reading}

namespace Step

theorem sound (h : Step r s) (sound : r.Sound text) : s.Sound text := by
  cases h with
  | advance => exact sound.advance
  | rescan way => exact sound.rescan way
  | note p isError => exact sound.note isError
  | passOver p _ more => exact sound.passOver more p

theorem here_le (h : Step r s) : r.here ≤ s.here := by
  cases h with
  | advance => exact Nat.le_trans r.here_le_stop r.stop_le_here_advance
  | rescan way => simp
  | note p isError => simp
  | passOver p =>
    have hstop := (r.note p).stop_le_here_advance
    rw [note_token] at hstop
    exact Nat.le_trans r.here_le_stop hstop

theorem lastEnd_le (h : Step r s) (sound : r.Sound text) : r.lastEnd ≤ s.lastEnd := by
  cases h with
  | advance => exact Nat.le_trans sound.lastEnd_le_here r.here_le_stop
  | rescan way => simp
  | note p isError => simp
  | passOver p =>
    rw [advance_lastEnd, note_token]
    exact Nat.le_trans sound.lastEnd_le_here r.here_le_stop

end Step

namespace Run

theorem sound (h : Run r s) (sound : r.Sound text) : s.Sound text := by
  induction h with
  | refl => exact sound
  | step _ last ih => exact last.sound ih

theorem here_le (h : Run r s) : r.here ≤ s.here := by
  induction h with
  | refl => exact Nat.le_refl _
  | step _ last ih => exact Nat.le_trans ih last.here_le

theorem lastEnd_le (h : Run r s) (sound : r.Sound text) : r.lastEnd ≤ s.lastEnd := by
  induction h with
  | refl => exact Nat.le_refl _
  | step run last ih => exact Nat.le_trans ih (last.lastEnd_le (run.sound sound))

/-- Notes are only ever added. -/
theorem clean_of (h : Run r s) (clean : s.Clean) : r.Clean where
  notes d hd := clean.notes d (h.extends.notes.mem hd)
  scanner d hd := clean.scanner d (h.extends.scanner.diagnostics.mem hd)

end Run
end Parse
end FactorySync
