import FactorySync.Proofs.Reading

/-!
# Reading makes progress

What is left of a text (`Reading.left`) never grows (`Run.left_le`), and it shrinks whenever the
current token begins further on than before (`Run.left_lt`). So a loop that consumes a token in
every round comes to an end, and so does a descent in which every goal that is asked for has either
less text left or a lower rank.
-/

namespace FactorySync

/-- What a token can become when it is read again. -/
def Kind.isReread : Kind → Bool
  | .greaterThan | .greaterThanEquals | .greaterThanGreaterThan | .greaterThanGreaterThanEquals
  | .greaterThanGreaterThanGreaterThan | .greaterThanGreaterThanGreaterThanEquals
  | .regularExpressionLiteral | .templateMiddle | .templateTail => true
  | _ => false

namespace Scanner

variable {text : List Char} {s : Scanner}

/-- What is left to be read: the characters behind the current token, and the token itself unless it
is the end of the file. -/
def left (s : Scanner) : Nat := s.rest.length + if s.token.kind = .endOfFile then 0 else 1

theorem left_le (s : Scanner) : s.left ≤ s.rest.length + 1 := by
  unfold left
  split <;> omega

theorem left_of_more (more : s.token.kind ≠ .endOfFile) : s.left = s.rest.length + 1 := by
  rw [left, if_neg more]

/-- There is nothing to be read behind the end of the file. -/
theorem Sound.nothing_left (h : s.Sound text) (atEnd : s.token.kind = .endOfFile) :
    s.token.source = [] ∧ s.rest = [] := by
  have nothing := h.atEnd atEnd
  rwa [fromToken, List.append_eq_nil_iff] at nothing

theorem ahead_length_le (s : Scanner) : s.ahead.length ≤ s.rest.length := by
  rw [ahead, List.length_drop]
  exact Nat.sub_le _ _

/-- The next token is taken out of what stands behind the current one. -/
theorem left_next_le (s : Scanner) : s.next.left ≤ s.rest.length := by
  have ahead_le := s.ahead_length_le
  cases hahead : s.ahead with
  | nil =>
    obtain ⟨before, flags, -, hnext⟩ := next_of_ahead_nil hahead
    simp [hnext, left]
  | cons c cs =>
    obtain ⟨before, flags, -, hnext⟩ := next_of_ahead_cons hahead
    have size_pos := (Lexeme.ofChars_fits c cs).size_pos
    have := left_le s.next
    rw [hahead] at ahead_le
    simp only [hnext, take_rest, List.length_drop] at this ahead_le ⊢
    simp only [List.length_cons] at this ahead_le
    omega

/-- A lexeme that takes at least the current token leaves no more than before. -/
theorem left_retake_le (more : s.token.kind ≠ .endOfFile) {l : Lexeme}
    (size : s.token.source.length ≤ l.size) : (s.retake l).left ≤ s.left := by
  have := left_le (s.retake l)
  rw [left_of_more more]
  simp only [retake, take_rest, List.length_drop, fromToken, List.length_append] at this ⊢
  omega

/-- Reading a token again leaves it as it is or takes a lexeme that is no shorter. -/
theorem Sound.rescan_cases (h : s.Sound text) (way : Rescan) : s.rescan way = s ∨
    s.token.kind ≠ .endOfFile ∧ ∃ l : Lexeme, s.rescan way = s.retake l ∧
      s.token.source.length ≤ l.size ∧ l.kind.isReread = true := by
  cases way with
  | greaterThan =>
    simp only [Scanner.rescan, rescanGreaterThan]
    split
    · next hk =>
      refine .inr ⟨by simp [hk], _, rfl, ?_, ?_⟩
      · rw [h.spelled ">" (by rw [hk]; rfl)]
        exact Nat.succ_le_succ (Nat.zero_le _)
      · dsimp only
        unfold Lexeme.afterGreaterThan
        split <;> rfl
    · exact .inl rfl
  | slash =>
    simp only [Scanner.rescan, rescanSlash]
    split
    · next hk =>
      refine .inr ⟨by rcases hk with hk | hk <;> simp [hk], _, rfl, ?_, rfl⟩
      rcases hk with hk | hk
      · rw [h.spelled "/" (by rw [hk]; rfl)]
        exact Nat.succ_le_succ (Nat.zero_le _)
      · -- the `=` of `/=` is the first character of the expression
        rw [fromToken, h.spelled "/=" (by rw [hk]; rfl)]
        simp [Lexeme.regularExpression, Lexeme.regularExpressionBody, CharClass.isLineBreak]
    · exact .inl rfl
  | template =>
    simp only [Scanner.rescan, rescanTemplate]
    split
    · next hk =>
      refine .inr ⟨by simp [hk], _, rfl, ?_, ?_⟩
      · rw [h.spelled "\x7d" (by rw [hk]; rfl)]
        exact Nat.succ_le_succ (Nat.zero_le _)
      · simp only [Lexeme.template]
        split <;> rfl
    · exact .inl rfl

theorem Sound.left_rescan_le (h : s.Sound text) (way : Rescan) : (s.rescan way).left ≤ s.left := by
  obtain same | ⟨more, l, again, size, -⟩ := h.rescan_cases way
  · exact Nat.le_of_eq (congrArg left same)
  · rw [again]
    exact left_retake_le more size

theorem Sound.rescan_kind (h : s.Sound text) (way : Rescan) :
    (s.rescan way).token.kind = s.token.kind ∨ (s.rescan way).token.kind.isReread = true := by
  obtain same | ⟨-, l, again, -, reread⟩ := h.rescan_cases way
  · exact .inl (by rw [same])
  · exact .inr (by rwa [again, Scanner.retake, take_kind])

/-- There is nothing but the end of the text behind it. -/
theorem Sound.next_endOfFile (h : s.Sound text) (atEnd : s.token.kind = .endOfFile) :
    s.next.token.kind = .endOfFile := by
  obtain ⟨-, noRest⟩ := h.nothing_left atEnd
  obtain ⟨before, flags, -, hnext⟩ := next_of_ahead_nil (s := s)
    (by rw [Scanner.ahead, noRest, List.drop_nil])
  rw [hnext, take_kind]

theorem Sound.rescan_endOfFile (h : s.Sound text) (atEnd : s.token.kind = .endOfFile)
    (way : Rescan) : (s.rescan way).token.kind = .endOfFile := by
  obtain same | ⟨more, -⟩ := h.rescan_cases way
  · rwa [same]
  · exact absurd atEnd more

end Scanner

namespace Parse

variable {text : List Char} {r s : Reading}

namespace Reading

/-- What is left to be read, with the current token. -/
def left (r : Reading) : Nat := r.scanner.left

theorem left_advance_le (r : Reading) : r.advance.left ≤ r.left :=
  Nat.le_trans (Scanner.left_next_le r.scanner) (Nat.le_add_right _ _)

theorem left_advance_lt (more : r.token.kind ≠ .endOfFile) : r.advance.left < r.left := by
  have := Scanner.left_next_le r.scanner
  rw [left, left, Scanner.left_of_more more]
  exact Nat.lt_succ_of_le this

theorem left_note (p : Problem) (r : Reading) : (r.note p).left = r.left := by
  rw [left, note_scanner, left]

theorem Sound.here_lt_advance (h : r.Sound text) (more : r.token.kind ≠ .endOfFile) :
    r.here < r.advance.here := Nat.lt_of_lt_of_le (h.here_lt_stop more) r.stop_le_here_advance

theorem Sound.here_advance_eq (h : r.Sound text) (atEnd : r.token.kind = .endOfFile) :
    r.advance.here = r.here := by
  obtain ⟨noSource, noRest⟩ := h.scanner.nothing_left atEnd
  rw [here_advance, Scanner.gap, noRest]
  simp [Token.stop, here, token, noSource]

end Reading

open Reading

namespace Step

theorem left_le (h : Step r s) (sound : r.Sound text) : s.left ≤ r.left := by
  cases h with
  | advance => exact left_advance_le r
  | rescan way => exact sound.scanner.left_rescan_le way
  | note p => exact Nat.le_of_eq (left_note p r)
  | passOver p => exact left_note p r ▸ left_advance_le _

theorem left_lt (h : Step r s) (sound : r.Sound text) (moved : r.here < s.here) :
    s.left < r.left := by
  cases h with
  | advance =>
    refine left_advance_lt fun atEnd => ?_
    rw [sound.here_advance_eq atEnd] at moved
    exact Nat.lt_irrefl _ moved
  | rescan way => exact absurd moved (by simp)
  | note p => exact absurd moved (by simp)
  | passOver p _ more => exact left_note p r ▸ left_advance_lt (by rwa [note_token])

/-- A token that is not left behind has the same kind still or is read in another way. -/
theorem kind_of_here_eq (h : Step r s) (sound : r.Sound text) (stays : s.here = r.here) :
    s.token.kind = r.token.kind ∨ s.token.kind.isReread = true := by
  cases h with
  | advance =>
    by_cases atEnd : r.token.kind = .endOfFile
    · exact .inl ((sound.scanner.next_endOfFile atEnd).trans atEnd.symm)
    · exact absurd stays (Nat.ne_of_gt (sound.here_lt_advance atEnd))
  | rescan way => exact sound.scanner.rescan_kind way
  | note p => exact .inl (by rw [note_token])
  | passOver p _ more =>
    have lt := (r.note p).stop_le_here_advance
    rw [note_token] at lt
    exact absurd stays (Nat.ne_of_gt (Nat.lt_of_lt_of_le (sound.here_lt_stop more) lt))

/-- Behind the end of the file nothing comes. -/
theorem endOfFile (h : Step r s) (sound : r.Sound text) (atEnd : r.token.kind = .endOfFile) :
    s.token.kind = .endOfFile := by
  cases h with
  | advance => exact sound.scanner.next_endOfFile atEnd
  | rescan way => exact sound.scanner.rescan_endOfFile atEnd way
  | note p => rwa [note_token]
  | passOver p _ more => exact absurd atEnd more

end Step

namespace Run

theorem left_le (h : Run r s) (sound : r.Sound text) : s.left ≤ r.left := by
  induction h with
  | refl => exact Nat.le_refl _
  | step run last ih => exact Nat.le_trans (last.left_le (run.sound sound)) ih

/-- Less is left wherever the current token is another one. -/
theorem left_lt (h : Run r s) (sound : r.Sound text) (moved : r.here < s.here) :
    s.left < r.left := by
  induction h with
  | refl => exact absurd moved (Nat.lt_irrefl _)
  | @step m t run last ih =>
    have middle := run.sound sound
    by_cases before : r.here < m.here
    · exact Nat.lt_of_le_of_lt (last.left_le middle) (ih before)
    · have := run.here_le
      exact Nat.lt_of_lt_of_le (last.left_lt middle (by omega)) (run.left_le sound)

theorem kind_of_here_eq (h : Run r s) (sound : r.Sound text) (stays : s.here = r.here) :
    s.token.kind = r.token.kind ∨ s.token.kind.isReread = true := by
  induction h with
  | refl => exact .inl rfl
  | @step m t run last ih =>
    have := run.here_le
    have := last.here_le
    rcases last.kind_of_here_eq (run.sound sound) (by omega) with same | reread
    · rw [same]
      exact ih (by omega)
    · exact .inr reread

theorem endOfFile (h : Run r s) (sound : r.Sound text) (atEnd : r.token.kind = .endOfFile) :
    s.token.kind = .endOfFile := by
  induction h with
  | refl => exact atEnd
  | step run last ih => exact last.endOfFile (run.sound sound) ih

end Run
end Parse
end FactorySync
