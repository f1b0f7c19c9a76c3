import FactorySync.Proofs.Scanning
import FactorySync.Text.Lines

/-!
# Gaps between tokens

`Trivia.Passes gap lineBreak` says that a text is trivia whatever follows it: blanks, line breaks and
closed comments, one after the other. A line comment is trivia of its own only in front of a line
break (`Trivia.read_remark`).
-/

namespace FactorySync

theorem CharClass.not_lineBreak_of_blank {c : Char} (h : isBlank c = true) :
    isLineBreak c = false := by
  refine Bool.eq_false_iff.2 fun line => ?_
  simp only [isLineBreak, Bool.or_eq_true, beq_iff_eq] at line
  obtain ((rfl | rfl) | rfl) | rfl := line <;> exact absurd h (by decide)

namespace Trivia

variable {gap body cs : List Char} {c : Char}

/-- The text is trivia whatever follows it, and tells whether there is a line break in it. -/
def Passes (gap : List Char) (lineBreak : Bool) : Prop := ∀ cs,
  read .between (gap ++ cs) =
    { read .between cs with
      size := (read .between cs).size + gap.length
      lineBreak := (read .between cs).lineBreak || lineBreak }

theorem read_cons (h : (CharClass.isLineBreak c || CharClass.isBlank c) = true) (cs : List Char) :
    read .between (c :: cs) = (read .between cs).afterChar c := by
  have slash : c ≠ '/' := by
    rintro rfl
    exact absurd h (by decide)
  rw [read.eq_3, if_pos h]
  all_goals
    rintro ds ⟨⟩
    contradiction

namespace Passes

theorem nil : Passes [] false := fun cs => by simp

theorem append {more : List Char} {a b : Bool} (h : Passes gap a) (h' : Passes more b) :
    Passes (gap ++ more) (a || b) := by
  intro cs
  rw [List.append_assoc, h, h', List.length_append]
  simp only [Nat.add_assoc, Bool.or_assoc, Bool.or_comm a, Nat.add_comm gap.length]

theorem char (h : (CharClass.isLineBreak c || CharClass.isBlank c) = true) :
    Passes [c] (CharClass.isLineBreak c) :=
  fun cs => read_cons h cs

theorem newLine (n : NewLine) : Passes n.text true := by
  cases n with
  | lf => exact .char rfl
  | crlf => exact .append (.char (c := '\r') rfl) (.char (c := '\n') rfl)

theorem blanks (h : ∀ c ∈ gap, CharClass.isBlank c = true) : Passes gap false := by
  induction gap with
  | nil => exact .nil
  | cons c gap ih =>
    obtain ⟨blank, others⟩ := List.forall_mem_cons.1 h
    have first := Passes.char (c := c) (by rw [blank, Bool.or_true])
    rw [CharClass.not_lineBreak_of_blank blank] at first
    exact first.append (ih others)

/-- A gap with a line break in it is not empty, and cannot be taken for a `#!` line. -/
theorem begins (h : Passes gap true) : ∃ c cs, gap = c :: cs ∧ c ≠ '#' := by
  have alone := h []
  rw [List.append_nil] at alone
  cases gap with
  | nil => cases congrArg lineBreak alone
  | cons c gap =>
    refine ⟨c, gap, rfl, ?_⟩
    rintro rfl
    cases congrArg size alone

end Passes

/-! ## Comments -/

theorem read_inBlock (star : '*' ∉ body) (n : Nat) (cs : List Char) :
    read (.inBlock n) (body ++ '*' :: '/' :: cs) =
      { read .between cs with
        size := (read .between cs).size + (body.length + 2)
        lineBreak := (read .between cs).lineBreak || body.any CharClass.isLineBreak } := by
  induction body generalizing n with
  | nil => simp [read, after]
  | cons c body ih =>
    rw [List.mem_cons, not_or] at star
    rw [List.cons_append, read.eq_6 _ _ _ fun ds isStar _ => star.1 isStar.symm, ih star.2]
    simp only [afterChar, List.length_cons, List.any_cons, Bool.or_assoc, Bool.or_comm (body.any _)]
    rw [Nat.add_assoc, Nat.add_right_comm body.length]

/-- A doc comment without more stars in it. -/
theorem Passes.docComment (star : '*' ∉ body) :
    Passes ("/** ".toList ++ (body ++ "*/".toList)) (body.any CharClass.isLineBreak) := by
  intro cs
  have opens : read .between ('/' :: '*' :: '*' :: ' ' :: (body ++ '*' :: '/' :: cs)) =
      (((read (.inBlock 4) (body ++ '*' :: '/' :: cs)).afterChar ' ').afterChar '*').after 2 := rfl
  have text : "/** ".toList ++ (body ++ "*/".toList) ++ cs =
      '/' :: '*' :: '*' :: ' ' :: (body ++ '*' :: '/' :: cs) := by simp
  rw [text, opens, read_inBlock star]
  simp [after, afterChar, CharClass.isLineBreak]
  omega

/-- A line comment with blanks in front of it, or nothing. -/
def IsRemark (cs : List Char) : Prop :=
  cs = [] ∨ ∃ blanks body, cs = blanks ++ '/' :: '/' :: body ∧
    (∀ c ∈ blanks, CharClass.isBlank c = true) ∧ ∀ c ∈ body, CharClass.isLineBreak c = false

theorem read_inLine (line : ∀ c ∈ body, CharClass.isLineBreak c = false)
    (behind : ∀ c ∈ cs.head?, CharClass.isLineBreak c = true) :
    read .inLine (body ++ cs) =
      { read .between cs with size := (read .between cs).size + body.length } := by
  induction body with
  | nil =>
    cases cs with
    | nil => rfl
    | cons c cs =>
      have isBreak := behind c rfl
      rw [read_cons (by rw [isBreak, Bool.true_or]), List.nil_append, read.eq_4, if_pos isBreak]
      rfl
  | cons c body ih =>
    obtain ⟨noBreak, line⟩ := List.forall_mem_cons.1 line
    rw [List.cons_append, read.eq_4, if_neg (by simp [noBreak]), ih line]
    simp [afterChar, noBreak, Nat.add_assoc]

/-- In front of a line break, or of the end of the text, a line comment is over. -/
theorem read_remark {remark : List Char} (h : IsRemark remark)
    (behind : ∀ c ∈ cs.head?, CharClass.isLineBreak c = true) :
    read .between (remark ++ cs) =
      { read .between cs with size := (read .between cs).size + remark.length } := by
  obtain rfl | ⟨blanks, body, rfl, blank, line⟩ := h
  · rfl
  · have comment : read .between ('/' :: '/' :: (body ++ cs)) =
        (read .inLine (body ++ cs)).after 2 := rfl
    rw [List.append_assoc, Passes.blanks blank, List.cons_append, List.cons_append, comment,
      read_inLine line behind]
    simp [after]
    omega

theorem Passes.remark {remark : List Char} (h : IsRemark remark) (n : NewLine) :
    Passes (remark ++ n.text) true := by
  intro cs
  have behind : ∀ c ∈ (n.text ++ cs).head?, CharClass.isLineBreak c = true := by
    cases n <;> simp [NewLine.text, CharClass.isLineBreak]
  rw [List.append_assoc, read_remark h behind, Passes.newLine n cs, List.length_append]
  simp only [Nat.add_assoc, Nat.add_comm n.text.length]

end Trivia
end FactorySync
