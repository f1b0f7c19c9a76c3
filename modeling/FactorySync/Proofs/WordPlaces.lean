import FactorySync.Proofs.Rows

/-!
# Where the words of a file stand

A row of words says in which order the tokens of a file follow each other, but not at which offsets.
In `Context.ofFile` it is known of each reading which one it is: the first reading of the file moved
on over the words in front of it (`Context.ofFile_known`). Where a text is cut in two and its words
with it (`Spells.Cut`), the front of the text then tells where the reading between the two parts
stands (`Spells.Cut.lastEnd_eq`, `Spells.Cut.here_eq`).
-/

namespace FactorySync

open Parse

namespace Trivia.Passes

variable {gap cs : List Char} {b : Bool}

theorem noHash (h : Passes gap b) : ∀ c ∈ gap.head?, c ≠ '#' := by
  rintro c hc rfl
  obtain ⟨gap, rfl⟩ := List.head?_eq_some_iff.1 hc
  cases congrArg size (h [])

/-- In front of what is no trivia the gap is all the trivia there is. -/
theorem ofChars_append {fileStart : Bool} (h : Passes gap b)
    (alone : ∀ fileStart, ofChars fileStart cs = {}) :
    ofChars fileStart (gap ++ cs) = { size := gap.length, lineBreak := b } := by
  have between := alone false
  rw [ofChars_false] at between
  cases gap with
  | nil =>
    have noBreak : b = false := (congrArg lineBreak (h [])).symm
    subst noBreak
    exact alone fileStart
  | cons c gap =>
    have read := h cs
    rw [between] at read
    rw [List.cons_append, ofChars_of_ne (h.noHash c rfl)]
    simpa using read

/-- Whatever follows the gap, it is trivia. -/
theorem le_size (h : Passes gap b) (some : gap ≠ []) (fileStart : Bool) (cs : List Char) :
    gap.length ≤ (ofChars fileStart (gap ++ cs)).size := by
  obtain ⟨c, gap, rfl⟩ := List.exists_cons_of_ne_nil some
  have read := congrArg size (h cs)
  rw [List.cons_append] at read ⊢
  rw [ofChars_of_ne (h.noHash c rfl), read]
  exact Nat.le_add_left _ _

end Trivia.Passes

/-! ## Readings further on -/

namespace Parse

namespace Reading

variable {text gap cs : List Char} {r : Reading} {b : Bool}

/-- The reading when so many more tokens have been consumed. -/
def onward (r : Reading) : Nat → Reading
  | 0 => r
  | n + 1 => (r.onward n).advance

theorem onward_advance (r : Reading) (n : Nat) : r.advance.onward n = r.onward (n + 1) := by
  induction n with
  | zero => rfl
  | succ n ih => exact congrArg advance ih

theorem Sound.onward (h : r.Sound text) (n : Nat) : (r.onward n).Sound text := by
  induction n with
  | zero => exact h
  | succ n ih => exact ih.advance

/-- Behind a gap the current token starts where the gap ends. -/
theorem Sound.here_eq (h : r.Sound text) (place : StandsAt text r.lastEnd (gap ++ cs))
    (passes : Trivia.Passes gap b) (alone : ∀ fileStart, Trivia.ofChars fileStart cs = {}) :
    r.here = r.lastEnd + byteLength gap := by
  obtain ⟨trivia, stands, size⟩ := h.gap
  have same := stands.unique place
  rw [same, passes.ofChars_append alone] at size
  obtain rfl : trivia = gap := (List.append_inj same size.symm).1
  have := stands.after.length_eq
  have := h.scanner.length_eq
  simp only [here, token]
  omega

/-- A gap stands in front of the current token. -/
theorem Sound.le_here (h : r.Sound text) (place : StandsAt text r.lastEnd (gap ++ cs))
    (passes : Trivia.Passes gap b) (some : gap ≠ []) : r.lastEnd + byteLength gap ≤ r.here := by
  obtain ⟨trivia, stands, size⟩ := h.gap
  have same := stands.unique place
  have le := passes.le_size some (r.lastEnd == 0) cs
  rw [← same, size] at le
  have front := congrArg (List.take gap.length) same
  rw [List.take_append_of_le_length le, List.take_left] at front
  have length := congrArg byteLength (List.take_append_drop gap.length trivia)
  rw [front] at length
  rw [byteLength_append] at length
  have := stands.after.length_eq
  have := h.scanner.length_eq
  simp only [here, token]
  omega

end Reading

/-- The context of a file with so many words, from its first reading on. -/
def Context.ofFile (first : Reading) (count : Nat) : Context where
  known n r := n ≤ count ∧ (0 < n → r = first.onward (count - n))
  known_advance := by
    rintro n r ⟨le, known⟩
    refine ⟨Nat.le_trans (Nat.sub_le n 1) le, fun more => ?_⟩
    have : count - (n - 1) = count - n + 1 := by omega
    rw [known (by omega), this]
    rfl

/-- Nothing is nested at the beginning of a file. -/
theorem Context.ofFile_room {first : Reading} {count n : Nat} (le : n ≤ Parser.maxDepth) :
    (Context.ofFile first count).Room n :=
  fun _ => Nat.le_trans (Nat.le_of_eq (Nat.zero_add n)) le

theorem Context.ofFile_known {first r : Reading} {ws rest : List Word}
    (h : (Context.ofFile first (ws ++ rest).length).known rest.length r) (some : rest ≠ []) :
    r = first.onward ws.length := by
  rw [h.2 (List.length_pos_of_ne_nil some), List.length_append, Nat.add_sub_cancel]

end Parse

/-! ## Offsets -/

/-- Over the words that are spelled the reading comes to what stands behind them. -/
theorem Spells.rest_onward {r : Reading} {tail : List Char} {ws : List Word}
    (h : Spells tail r.scanner.rest ws) :
    ∃ n, (r.onward ws.length).scanner.rest = List.replicate n ' ' ++ tail := by
  induction ws generalizing r with
  | nil => exact h.front_nil
  | cons w ws ih =>
    obtain ⟨n, ds, trivia, front, ⟨⟨c, cs, text, lexeme⟩, -⟩, rest⟩ :=
      h.front (r.scanner.token.stop == 0)
    have next := Scanner.next_of_trivia trivia (front.trans text)
    have rest : Spells tail r.advance.scanner.rest ws := by
      show Spells tail r.scanner.next.rest ws
      rw [next, lexeme, ← text]
      show Spells tail ((w.source ++ ds).drop w.source.length) ws
      rwa [List.drop_left]
    rw [List.length_cons, ← Reading.onward_advance]
    exact ih rest

namespace SourceFile

open FactorySync.Parser

variable {front tail gap cs : List Char} {ws : List Word} {b : Bool}

/-- When the words have been consumed that the text up to an offset spells, the last one ends
there. -/
theorem lastEnd_onward (path : String) (h : Spells tail (front ++ tail) ws)
    (tight : front.getLast? ≠ some ' ') :
    ((firstReading path (front ++ tail)).onward ws.length).lastEnd = byteLength front := by
  let start : Reading := { scanner := .ofText path (front ++ tail) }
  obtain ⟨n, rest⟩ := Spells.rest_onward (r := start) h
  have place : StandsAt (front ++ tail) (start.onward ws.length).token.stop
      (start.onward ws.length).scanner.rest := by
    cases ws with
    | nil => exact .zero _
    | cons w ws =>
      rw [List.length_cons, ← Reading.onward_advance]
      exact ((firstReading_sound path (front ++ tail)).onward ws.length).scanner.rest
  have lastEnd : ((firstReading path (front ++ tail)).onward ws.length).lastEnd =
      (start.onward ws.length).token.stop := by
    show (start.advance.onward ws.length).lastEnd = _
    rw [Reading.onward_advance]
    rfl
  rw [lastEnd]
  rw [rest] at place
  -- blanks behind the last word would be part of the text in front of the offset
  obtain ⟨before, text, stop⟩ := place
  have blanks : front = before ++ List.replicate n ' ' := by
    rw [← List.append_assoc] at text
    exact List.append_cancel_right text
  cases n with
  | zero => rw [← stop, blanks, List.replicate_zero, List.append_nil]
  | succ n =>
    rw [blanks, List.replicate_succ', ← List.append_assoc, List.getLast?_concat] at tight
    exact absurd rfl tight

end SourceFile

namespace Spells

variable {tail behind cs gap : List Char} {ws pre rest more : List Word} {w : Word} {b : Bool}

/-- What goes on with a row of words is a longer row. -/
theorem trans (h : Spells tail cs ws) (h' : Spells behind tail more) :
    Spells behind cs (ws ++ more) := by
  induction h with
  | done => exact h'
  | blank _ ih => exact .blank ih
  | word sameLine before _ ih => exact .word sameLine before ih
  | line breaks before _ ih => exact .line breaks before ih

/-- A gap with a line break in it in front of a row puts its first word on a new line. -/
theorem onNewLine (h : Spells tail cs (w :: ws)) (breaks : Trivia.Passes gap true) :
    Spells tail (gap ++ cs) (w.onNewLine :: ws) := by
  generalize hws : w :: ws = row at h
  induction h generalizing gap with
  | done => cases hws
  | @blank cs _ _ ih =>
    have longer := ih (breaks.append (Trivia.Passes.char (c := ' ') rfl)) hws
    rwa [List.append_assoc] at longer
  | word _ before rest =>
    cases hws
    exact .line breaks before rest
  | line breaks' before rest =>
    cases hws
    rw [← List.append_assoc]
    exact .line (breaks.append breaks') before rest

/-- The text is cut in two, and so are its words: those in front are spelled by the front. -/
structure Cut (text : List Char) (words : List Word) (front tail : List Char)
    (pre rest : List Word) : Prop where
  text_eq : text = front ++ tail
  words_eq : words = pre ++ rest
  spells : Spells tail (front ++ tail) pre
  /-- The front ends with its last word. -/
  tight : front.getLast? ≠ some ' '

namespace Cut

variable {text front : List Char} {words : List Word} {path : String} {r : Reading}

theorem start (text : List Char) (words : List Word) : Cut text words [] text [] words :=
  ⟨rfl, rfl, .done, nofun⟩

/-- The cut is moved on over some words. -/
theorem moveOn (h : Cut text words front (cs ++ tail) pre (ws ++ rest))
    (spells : Spells tail (cs ++ tail) ws) (tight : cs.getLast? ≠ some ' ') (some : cs ≠ []) :
    Cut text words (front ++ cs) tail (pre ++ ws) rest where
  text_eq := by rw [h.text_eq, List.append_assoc]
  words_eq := by rw [h.words_eq, List.append_assoc]
  spells := List.append_assoc .. ▸ h.spells.trans spells
  tight := by rwa [List.getLast?_append_of_ne_nil _ some]

theorem sound (h : Cut text words front tail pre rest)
    (known : (Context.ofFile (Parser.firstReading path text) words.length).known rest.length r)
    (some : rest ≠ []) : r.Sound text := by
  obtain ⟨rfl, rfl, -, -⟩ := h
  rw [Context.ofFile_known known some]
  exact (Parser.firstReading_sound path _).onward _

/-- The last word in front of the cut ends there. -/
theorem lastEnd_eq (h : Cut text words front tail pre rest)
    (known : (Context.ofFile (Parser.firstReading path text) words.length).known rest.length r)
    (some : rest ≠ []) : r.lastEnd = byteLength front := by
  obtain ⟨rfl, rfl, spells, tight⟩ := h
  rw [Context.ofFile_known known some]
  exact SourceFile.lastEnd_onward path spells tight

theorem place (h : Cut text words front tail pre rest)
    (known : (Context.ofFile (Parser.firstReading path text) words.length).known rest.length r)
    (some : rest ≠ []) : StandsAt text r.lastEnd tail := by
  rw [h.lastEnd_eq known some, h.text_eq]
  exact ⟨front, rfl, rfl⟩

/-- The first word behind the cut starts behind the gap that follows. -/
theorem here_eq (h : Cut text words front (gap ++ cs) pre rest)
    (known : (Context.ofFile (Parser.firstReading path text) words.length).known rest.length r)
    (some : rest ≠ []) (passes : Trivia.Passes gap b)
    (alone : ∀ fileStart, Trivia.ofChars fileStart cs = {}) :
    r.here = byteLength (front ++ gap) := by
  rw [(h.sound known some).here_eq (h.place known some) passes alone,
    h.lastEnd_eq known some, byteLength_append]

end Cut
end Spells
end FactorySync
