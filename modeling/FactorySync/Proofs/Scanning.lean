import FactorySync.Proofs.Place
import FactorySync.Token.Scanner

/-!
# What the scanner stands on

`Scanner.Sound text s` is the invariant of scanning: the current token stands where it says it does,
no trivia is left in front of it, it has at least one character unless the text is over, and
punctuation is spelled as its kind tells. Reading on (`Scanner.Sound.next`) and reading a token
again (`Scanner.Sound.rescan`) both keep it.
-/

namespace FactorySync

namespace Kind

/-- Whether tokens can have this kind. The other kinds are those of nodes. -/
def isToken (k : Kind) : Bool := k.ctorIdx ≤ yieldKeyword.ctorIdx

/-- Whether a token with characters can have this kind. -/
def isLexeme (k : Kind) : Bool := k.isToken && k != .endOfFile

theorem isToken_of_isLexeme {k : Kind} (h : k.isLexeme = true) : k.isToken = true := by
  simp only [isLexeme, Bool.and_eq_true] at h
  exact h.1

theorem ne_endOfFile_of_isLexeme {k : Kind} (h : k.isLexeme = true) : k ≠ .endOfFile := by
  rintro rfl
  exact Bool.noConfusion h

theorem spelledWords_isWord :
    ∀ entry ∈ spelledWords, entry.2.punctuationText? = none ∧ entry.2.isLexeme = true := by
  decide +kernel

/-- Words are no punctuation. -/
theorem ofWord?_isWord {word : String} {k : Kind} (h : ofWord? word = some k) :
    k.punctuationText? = none ∧ k.isLexeme = true := by
  obtain ⟨front, back, hl, -⟩ := List.lookup_eq_some_iff.1 h
  exact spelledWords_isWord (word, k) (by simp [hl])

end Kind

namespace Lexeme

/-- What every lexeme taken from the front of `cs` is like. -/
structure Fits (cs : List Char) (l : Lexeme) : Prop where
  size_pos : 0 < l.size
  isLexeme : l.kind.isLexeme = true
  spelled : ∀ p, l.kind.punctuationText? = some p → cs.take l.size = p.toList

theorem string_fits (quote c : Char) (cs : List Char) : (string quote cs).Fits (c :: cs) where
  size_pos := Nat.succ_pos _
  isLexeme := rfl
  spelled := fun _ h => nomatch h

theorem template_fits {whole part : Kind} (cs ds : List Char)
    (hw : whole.isLexeme = true ∧ whole.punctuationText? = none)
    (hp : part.isLexeme = true ∧ part.punctuationText? = none) :
    (template whole part cs).Fits ds where
  size_pos := Nat.succ_pos _
  isLexeme := by
    simp only [template]
    split
    · exact hp.1
    · exact hw.1
  spelled p h := by
    simp only [template] at h
    split at h
    · simp [hp.2] at h
    · simp [hw.2] at h

theorem regularExpression_fits (cs ds : List Char) : (regularExpression cs).Fits ds where
  size_pos := Nat.succ_pos _
  isLexeme := rfl
  spelled := fun _ h => nomatch h

theorem numberForm_pos {c : Char} {cs : List Char}
    (h : (CharClass.isDigit c || (c == '.' && beginsWithDigit cs)) = true) :
    0 < (numberForm (c :: cs)).1 := by
  have decimal : 0 < (numberForm.decimal (c :: cs)).1 := by
    simp only [numberForm.decimal]
    by_cases hc : CharClass.isDigit c = true
    · have : 0 < digitRun CharClass.isDigit (c :: cs) := by simp [digitRun, hc]
      omega
    · obtain ⟨rfl, -⟩ : c = '.' ∧ beginsWithDigit cs = true := by simpa [hc] using h
      have : digitRun CharClass.isDigit ('.' :: cs) = 0 := by simp [digitRun, hc]
      simp only [this, List.drop_zero, fraction]
      omega
  unfold numberForm
  split
  · split
    · exact Nat.lt_of_lt_of_le Nat.zero_lt_two (Nat.le_add_right 2 _)
    · exact decimal
  · exact decimal

theorem number_fits {c : Char} {cs : List Char}
    (h : (CharClass.isDigit c || (c == '.' && beginsWithDigit cs)) = true) :
    (number (c :: cs)).Fits (c :: cs) where
  size_pos := by
    have := numberForm_pos h
    simp only [number]
    split <;> omega
  isLexeme := by
    simp only [number]
    split <;> rfl
  spelled p hp := by
    simp only [number] at hp
    split at hp <;> simp [Kind.punctuationText?, Kind.assignmentText?, Kind.otherPunctuationText?]
      at hp

theorem word_fits {c : Char} {cs : List Char} (h : CharClass.isIdentifierStart c = true) :
    (word (c :: cs)).Fits (c :: cs) where
  size_pos := by simp [word, CharClass.isIdentifierPart_of_isIdentifierStart h]
  isLexeme := by
    simp only [word]
    cases hk : Kind.ofWord? (String.ofList ((c :: cs).takeWhile CharClass.isIdentifierPart)) with
    | none => rfl
    | some k => exact (Kind.ofWord?_isWord hk).2
  spelled p hp := by
    simp only [word] at hp
    cases hk : Kind.ofWord? (String.ofList ((c :: cs).takeWhile CharClass.isIdentifierPart)) with
    | none => rw [hk] at hp; exact nomatch hp
    | some k => rw [hk] at hp; simp [(Kind.ofWord?_isWord hk).1] at hp

theorem spellings_are : ∀ entry ∈ spellings, 0 < entry.1.length ∧ entry.2.isLexeme = true ∧
    entry.2.punctuationText?.map (·.toList) = some entry.1 := by
  decide +kernel

theorem punctuation?_fits {cs : List Char} {l : Lexeme} (h : punctuation? cs = some l) :
    l.Fits cs := by
  obtain ⟨entry, hfind, rfl⟩ := Option.map_eq_some_iff.1 h
  obtain ⟨hpos, htoken, htext⟩ := spellings_are entry (List.mem_of_find?_eq_some hfind)
  refine ⟨hpos, htoken, fun p hp => ?_⟩
  have hfits := List.find?_some hfind
  simp only [fits, Bool.and_eq_true] at hfits
  obtain ⟨rest, rfl⟩ := List.isPrefixOf_iff_prefix.1 hfits.1
  simp only [hp, Option.map_some, Option.some.injEq] at htext
  simp [htext]

theorem ofChars_fits (c : Char) (cs : List Char) : (ofChars c cs).Fits (c :: cs) := by
  unfold ofChars
  split
  · exact string_fits c c cs
  split
  · exact template_fits cs _ ⟨rfl, rfl⟩ ⟨rfl, rfl⟩
  split
  · next h => exact number_fits h
  split
  · next h => exact word_fits h
  split
  · next h => exact punctuation?_fits h
  · exact ⟨Nat.zero_lt_one, rfl, fun _ h => nomatch h⟩

/-- The operator that `>` begins is spelled as it stands there. -/
theorem afterGreaterThan_spelled (cs : List Char) :
    (afterGreaterThan cs).1.isLexeme = true ∧
      ∀ p, (afterGreaterThan cs).1.punctuationText? = some p →
        ('>' :: cs).take ((afterGreaterThan cs).2 + 1) = p.toList := by
  unfold afterGreaterThan
  split <;> refine ⟨rfl, fun p hp => ?_⟩ <;> cases hp <;> rfl

end Lexeme

/-! ## Trivia -/

/-- After trivia no more trivia follows. -/
theorem Trivia.read_size_drop (mode : Trivia.Mode) (cs : List Char) :
    (Trivia.read .between (cs.drop (Trivia.read mode cs).size)).size = 0 := by
  fun_induction Trivia.read mode cs with
  | case1 cs ih => simpa [Trivia.after] using ih
  | case2 cs ih => simpa [Trivia.after] using ih
  | case3 c cs _ _ h ih => simpa [Trivia.afterChar] using ih
  | case4 c cs hline hblock h =>
    -- the first character is no trivia, so nothing was read and reading again stops at once
    show (Trivia.read .between (c :: cs)).size = 0
    rw [Trivia.read.eq_3 c cs hline hblock]
    simp [h]
  | case5 c cs ih => simpa [Trivia.afterChar] using ih
  | case6 length cs ih => simpa [Trivia.after] using ih
  | case7 length c cs _ ih => simpa [Trivia.afterChar] using ih
  | case8 => rfl
  | case9 mode _ => cases mode <;> rfl

/-- Anywhere but at the start of a file, `#!` is no trivia. -/
theorem Trivia.ofChars_false (cs : List Char) :
    Trivia.ofChars false cs = Trivia.read .between cs := by
  unfold Trivia.ofChars
  split
  · simp [Trivia.read, CharClass.isLineBreak, CharClass.isBlank]
  · rfl

theorem Trivia.ofChars_size_drop (fileStart : Bool) (cs : List Char) :
    (Trivia.read .between (cs.drop (Trivia.ofChars fileStart cs).size)).size = 0 := by
  unfold Trivia.ofChars
  split
  · split
    · next cs' _ => simpa [Trivia.after] using Trivia.read_size_drop .inLine cs'
    · simp [Trivia.read, CharClass.isLineBreak, CharClass.isBlank]
  · exact Trivia.read_size_drop .between cs

theorem Trivia.read_size_le (mode : Trivia.Mode) (cs : List Char) :
    (Trivia.read mode cs).size ≤ cs.length := by
  fun_induction Trivia.read mode cs <;> simp_all [Trivia.after, Trivia.afterChar]

theorem Trivia.ofChars_size_le (fileStart : Bool) (cs : List Char) :
    (Trivia.ofChars fileStart cs).size ≤ cs.length := by
  unfold Trivia.ofChars
  split
  · split
    · next cs' _ => simpa [Trivia.after] using Trivia.read_size_le .inLine cs'
    · exact Nat.zero_le _
  · exact Trivia.read_size_le .between cs

/-! ## Scanners -/

namespace Scanner

variable {text : List Char} {s : Scanner}

@[simp] theorem note_token (span : Span) (problem : Option Problem) (s : Scanner) :
    (s.note span problem).token = s.token := by cases problem <;> rfl

@[simp] theorem note_rest (span : Span) (problem : Option Problem) (s : Scanner) :
    (s.note span problem).rest = s.rest := by cases problem <;> rfl

@[simp] theorem take_rest (start : Nat) (flags : TokenFlags) (l : Lexeme) (cs : List Char)
    (s : Scanner) : (s.take start flags l cs).rest = cs.drop l.size := by
  simp [take]

@[simp] theorem take_kind (start : Nat) (flags : TokenFlags) (l : Lexeme) (cs : List Char)
    (s : Scanner) : (s.take start flags l cs).token.kind = l.kind := by
  simp [take]

@[simp] theorem take_start (start : Nat) (flags : TokenFlags) (l : Lexeme) (cs : List Char)
    (s : Scanner) : (s.take start flags l cs).token.start = start := by
  simp [take]

@[simp] theorem take_source (start : Nat) (flags : TokenFlags) (l : Lexeme) (cs : List Char)
    (s : Scanner) : (s.take start flags l cs).token.source = cs.take l.size := by
  simp [take]

@[simp] theorem take_fromToken (start : Nat) (flags : TokenFlags) (l : Lexeme) (cs : List Char)
    (s : Scanner) : (s.take start flags l cs).fromToken = cs := by
  simp [fromToken]

/-- The invariant of scanning. -/
structure Sound (text : List Char) (s : Scanner) : Prop where
  place : StandsAt text s.token.start s.fromToken
  /-- The token is not in the middle of trivia. -/
  fresh : (Trivia.read .between s.fromToken).size = 0
  nonempty : s.token.kind ≠ .endOfFile → s.token.source ≠ []
  atEnd : s.token.kind = .endOfFile → s.fromToken = []
  spelled : ∀ p, s.token.kind.punctuationText? = some p → s.token.source = p.toList
  isToken : s.token.kind.isToken = true

theorem Sound.rest (h : s.Sound text) : StandsAt text s.token.stop s.rest := h.place.after

theorem Sound.length_eq (h : s.Sound text) :
    s.token.start + byteLength s.fromToken = byteLength text := h.place.length_eq

theorem Sound.length_pos (h : s.Sound text) (more : s.token.kind ≠ .endOfFile) :
    0 < byteLength s.token.source := byteLength_pos (h.nonempty more)

/-- A lexeme that fits what stands at `start` leads to a sound scanner. -/
theorem sound_take {start : Nat} {cs : List Char} (place : StandsAt text start cs)
    (fresh : (Trivia.read .between cs).size = 0) (more : cs ≠ []) {l : Lexeme} (fits : l.Fits cs)
    (flags : TokenFlags) (s : Scanner) :
    (s.take start flags l cs).Sound text where
  place := by simpa using place
  fresh := by simpa using fresh
  nonempty _ := by
    have := fits.size_pos
    obtain ⟨c, cs, rfl⟩ := List.exists_cons_of_ne_nil more
    obtain ⟨n, hn⟩ := Nat.exists_eq_add_one_of_ne_zero (Nat.ne_of_gt this)
    simp [hn]
  atEnd h := absurd (by simpa using h) (Kind.ne_endOfFile_of_isLexeme fits.isLexeme)
  spelled p hp := by simpa using fits.spelled p (by simpa using hp)
  isToken := by simpa using Kind.isToken_of_isLexeme fits.isLexeme

/-- The trivia between the current token and the next one. -/
def gap (s : Scanner) : List Char :=
  s.rest.take (Trivia.ofChars (s.token.stop == 0) s.rest).size

/-- The text that the next token begins. -/
def ahead (s : Scanner) : List Char :=
  s.rest.drop (Trivia.ofChars (s.token.stop == 0) s.rest).size

@[simp] theorem gap_append_ahead (s : Scanner) : s.gap ++ s.ahead = s.rest :=
  List.take_append_drop _ _

theorem gap_length (s : Scanner) :
    s.gap.length = (Trivia.ofChars (s.token.stop == 0) s.rest).size := by
  rw [gap, List.length_take, Nat.min_eq_left (Trivia.ofChars_size_le _ _)]

theorem next_of_ahead_nil (h : s.ahead = []) : ∃ (before : Scanner) (flags : TokenFlags),
    s.Extends before ∧ s.next = before.take (s.token.stop + byteLength s.gap) flags
      { kind := .endOfFile, size := 0 } [] := by
  rw [ahead] at h
  simp only [next, h]
  refine ⟨_, _, ?_, rfl⟩
  split
  · exact .refl s
  · exact extends_note _ _ s

theorem next_of_ahead_cons {c : Char} {cs : List Char} (h : s.ahead = c :: cs) :
    ∃ (before : Scanner) (flags : TokenFlags), s.Extends before ∧
      s.next = before.take (s.token.stop + byteLength s.gap) flags (.ofChars c cs) (c :: cs) := by
  rw [ahead] at h
  simp only [next, h]
  refine ⟨_, _, ?_, rfl⟩
  split
  · exact .refl s
  · exact extends_note _ _ s

@[simp] theorem next_start (s : Scanner) :
    s.next.token.start = s.token.stop + byteLength s.gap := by
  cases h : s.ahead with
  | nil => obtain ⟨before, flags, -, hnext⟩ := next_of_ahead_nil h; simp [hnext]
  | cons c cs => obtain ⟨before, flags, -, hnext⟩ := next_of_ahead_cons h; simp [hnext]

@[simp] theorem next_fromToken (s : Scanner) : s.next.fromToken = s.ahead := by
  cases h : s.ahead with
  | nil => obtain ⟨before, flags, -, hnext⟩ := next_of_ahead_nil h; simp [hnext]
  | cons c cs => obtain ⟨before, flags, -, hnext⟩ := next_of_ahead_cons h; simp [hnext]

/-- Reading on is sound wherever the rest of the text is where it should be. -/
theorem sound_next (h : StandsAt text s.token.stop s.rest) : s.next.Sound text := by
  have place : StandsAt text (s.token.stop + byteLength s.gap) s.ahead := by
    rw [← s.gap_append_ahead] at h
    exact h.after
  have fresh : (Trivia.read .between s.ahead).size = 0 := Trivia.ofChars_size_drop _ _
  cases hahead : s.ahead with
  | nil =>
    obtain ⟨before, flags, -, hnext⟩ := next_of_ahead_nil hahead
    rw [hahead] at place
    rw [hnext]
    exact {
      place := by simpa using place
      fresh := by rw [take_fromToken]; rfl
      nonempty := fun more => absurd (take_kind ..) more
      atEnd := fun _ => take_fromToken ..
      spelled := fun p hp => by rw [take_kind] at hp; exact nomatch hp
      isToken := by rw [take_kind]; rfl }
  | cons c cs =>
    obtain ⟨before, flags, -, hnext⟩ := next_of_ahead_cons hahead
    rw [hahead] at place fresh
    rw [hnext]
    exact sound_take place fresh (List.cons_ne_nil c cs) (Lexeme.ofChars_fits c cs) flags before

theorem Sound.next (h : s.Sound text) : s.next.Sound text := sound_next h.rest

theorem Sound.retake (h : s.Sound text) (more : s.token.kind ≠ .endOfFile) {l : Lexeme}
    (fits : l.Fits s.fromToken) : (s.retake l).Sound text :=
  sound_take h.place h.fresh (by simp [fromToken, h.nonempty more]) fits _ _

theorem Sound.rescan (h : s.Sound text) (way : Rescan) : (s.rescan way).Sound text := by
  cases way with
  | greaterThan =>
    simp only [Scanner.rescan, rescanGreaterThan]
    split
    · next hk =>
      have htext : s.fromToken = '>' :: s.rest := by
        rw [fromToken, h.spelled ">" (by rw [hk]; rfl)]
        rfl
      obtain ⟨isLexeme, spelled⟩ := Lexeme.afterGreaterThan_spelled s.rest
      exact h.retake (by simp [hk]) ⟨Nat.succ_pos _, isLexeme, by rwa [htext]⟩
    · exact h
  | slash =>
    simp only [Scanner.rescan, rescanSlash]
    split
    · next hk =>
      have more : s.token.kind ≠ .endOfFile := by rcases hk with hk | hk <;> simp [hk]
      exact h.retake more (Lexeme.regularExpression_fits _ _)
    · exact h
  | template =>
    simp only [Scanner.rescan, rescanTemplate]
    split
    · next hk =>
      exact h.retake (by simp [hk]) (Lexeme.template_fits _ _ ⟨rfl, rfl⟩ ⟨rfl, rfl⟩)
    · exact h

@[simp] theorem rescan_start (way : Rescan) (s : Scanner) :
    (s.rescan way).token.start = s.token.start := by
  cases way <;> simp only [Scanner.rescan, rescanGreaterThan, rescanSlash, rescanTemplate] <;>
    split <;> simp [Scanner.retake]

theorem rescan_fromToken (way : Rescan) (s : Scanner) :
    (s.rescan way).fromToken = s.fromToken := by
  cases way <;> simp only [Scanner.rescan, rescanGreaterThan, rescanSlash, rescanTemplate] <;>
    split <;> simp [Scanner.retake]

end Scanner
end FactorySync
