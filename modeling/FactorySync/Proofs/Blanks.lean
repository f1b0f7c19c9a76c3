import FactorySync.Proofs.Scanning
import FactorySync.Text.Lines

/-!
# Blanks and tokens

What is cut out of a text takes the blanks and the line break behind it along. Such a cut ends
before the next token begins (`TokenStart.after_blanks`), because no token begins among blanks.
-/

namespace FactorySync

/-- At `pos` a token can begin: no trivia is cut in two there. -/
def TokenStart (text : List Char) (pos : Nat) : Prop :=
  ∃ cs, StandsAt text pos cs ∧ (Trivia.read .between cs).size = 0

theorem newLineLength_eq_iff {cs : List Char} (h : newLineLength cs ≠ 0) :
    ∃ line rest, cs = line ++ '\n' :: rest ∧ newLineLength cs = line.length + 1 ∧
      ∀ c ∈ line, c = '\r' := by
  unfold newLineLength at h ⊢
  split at h
  · exact ⟨['\r'], _, rfl, rfl, by simp⟩
  · exact ⟨[], _, rfl, rfl, by simp⟩
  · exact absurd rfl h

theorem takeWhile_append_drop {α : Type} (p : α → Bool) (l : List α) :
    l.takeWhile p ++ l.drop (l.takeWhile p).length = l := by
  induction l with
  | nil => rfl
  | cons a l ih => by_cases ha : p a <;> simp [ha, ih]

theorem Trivia.read_size_pos {c : Char} {cs : List Char}
    (h : (CharClass.isLineBreak c || CharClass.isBlank c) = true) :
    0 < (Trivia.read .between (c :: cs)).size := by
  have hslash : c ≠ '/' := by
    rintro rfl
    exact absurd h (by decide)
  rw [Trivia.read.eq_3 c cs (fun _ hc => absurd hc hslash) fun _ hc => absurd hc hslash, if_pos h]
  exact Nat.succ_pos _

/-- A token does not begin among blanks and line breaks. -/
theorem TokenStart.after_blanks {text ws rest : List Char} {p q : Nat} (token : TokenStart text q)
    (place : StandsAt text p (ws ++ rest))
    (blank : ∀ c ∈ ws, (CharClass.isLineBreak c || CharClass.isBlank c) = true) (le : p ≤ q) :
    p + byteLength ws ≤ q := by
  obtain ⟨cs, place', fresh⟩ := token
  obtain ⟨ms, heq, rfl⟩ := place.between place' le
  obtain ⟨more, rfl, -⟩ | ⟨left, rfl, rfl⟩ := List.append_eq_append_iff.1 heq
  · rw [byteLength_append]
    omega
  · cases left with
    | nil => simp
    | cons c left =>
      rw [List.cons_append] at fresh
      exact absurd fresh (Nat.ne_of_gt (Trivia.read_size_pos (blank c (by simp))))

theorem newLine_split (cs : List Char) : ∃ line rest, cs = line ++ rest ∧
    line.length = newLineLength cs ∧ ∀ c ∈ line, c = '\r' ∨ c = '\n' := by
  unfold newLineLength
  split
  · exact ⟨['\r', '\n'], _, rfl, rfl, by simp⟩
  · exact ⟨['\n'], _, rfl, rfl, by simp⟩
  · exact ⟨[], cs, rfl, rfl, nofun⟩

/-- The blanks at the front of a text and the line break behind them. -/
theorem blanks_split {p : Char → Bool} (hp : ∀ c, p c = true → c = ' ' ∨ c = '\t')
    (cs : List Char) : ∃ ws rest, cs = ws ++ rest ∧
      byteLength ws = (cs.takeWhile p).length + newLineLength (cs.drop (cs.takeWhile p).length) ∧
        ∀ c ∈ ws, (CharClass.isLineBreak c || CharClass.isBlank c) = true := by
  obtain ⟨line, rest, hrest, hlength, hline⟩ := newLine_split (cs.drop (cs.takeWhile p).length)
  have blank : ∀ c ∈ cs.takeWhile p ++ line, c = ' ' ∨ c = '\t' ∨ c = '\r' ∨ c = '\n' := by
    intro c hc
    rcases List.mem_append.1 hc with hc | hc
    · exact (hp c (List.all_eq_true.1 List.all_takeWhile c hc)).imp_right .inl
    · exact .inr (.inr (hline c hc))
  refine ⟨cs.takeWhile p ++ line, rest, ?_, ?_, fun c hc => ?_⟩
  · rw [List.append_assoc, ← hrest, takeWhile_append_drop]
  · rw [byteLength_eq_length fun c hc => ?_, List.length_append, hlength]
    rcases blank c hc with rfl | rfl | rfl | rfl <;> rfl
  · rcases blank c hc with rfl | rfl | rfl | rfl <;> rfl

end FactorySync
