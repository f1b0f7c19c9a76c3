import FactorySync.Proofs.Progress

/-!
# The stream of tokens

A scanner is driven by calls: to move on, or to read the current token again. Whatever the calls
are, the tokens tile the text. Each stands on whole characters, begins where the one before it ends
or later, and takes at least one character until the text is over (`Token.Stands`). What lies
between two tokens is trivia (`IsTrivia`), and the later one knows whether a line break is in it
(`Token.Follows`). After as many calls to move on as there are bytes, and one more, the text is
over. `Scanner.Reached` is the invariant; one call keeps it, so all calls do
(`Scanner.Reached.calls`).
-/

namespace FactorySync

/-! ## The form of trivia -/

/-- No line break is among the characters. -/
def Unbroken (cs : List Char) : Prop := ∀ c ∈ cs, CharClass.isLineBreak c = false

/-- A line is over where `cs` begins: at a line break or with the text. -/
structure EndsLine (atEnd : Prop) (cs : List Char) : Prop where
  breaks : ∀ c ∈ cs.head?, CharClass.isLineBreak c = true
  ended : cs = [] → atEnd

/-- Nothing among the characters closes a block comment. -/
def Unclosed (cs : List Char) : Prop := ¬['*', '/'] <:+: cs

/-- Blanks, line breaks and comments. Behind them the text is over if `atEnd` holds; only there does
a line comment end without a line break or a block comment without its closing mark. -/
inductive IsTrivia (atEnd : Prop) : List Char → Prop where
  | nil : IsTrivia atEnd []
  | blank {c : Char} {cs : List Char} (isBlank : CharClass.isBlank c = true)
      (more : IsTrivia atEnd cs) : IsTrivia atEnd (c :: cs)
  | lineBreak {c : Char} {cs : List Char} (isLineBreak : CharClass.isLineBreak c = true)
      (more : IsTrivia atEnd cs) : IsTrivia atEnd (c :: cs)
  | lineComment {body cs : List Char} (unbroken : Unbroken body) (ends : EndsLine atEnd cs)
      (more : IsTrivia atEnd cs) : IsTrivia atEnd ('/' :: '/' :: (body ++ cs))
  | blockComment {body cs : List Char} (unclosed : Unclosed body) (more : IsTrivia atEnd cs) :
      IsTrivia atEnd ('/' :: '*' :: (body ++ '*' :: '/' :: cs))
  | openComment {body : List Char} (unclosed : Unclosed body) (ended : atEnd) :
      IsTrivia atEnd ('/' :: '*' :: body)

/-- What stands in front of a token: trivia and, at the very start of a text, a `#!` line. -/
inductive IsGap (fileStart atEnd : Prop) : List Char → Prop where
  | trivia {cs : List Char} (trivia : IsTrivia atEnd cs) : IsGap fileStart atEnd cs
  | shebang {body cs : List Char} (first : fileStart) (unbroken : Unbroken body)
      (ends : EndsLine atEnd cs) (more : IsTrivia atEnd cs) :
      IsGap fileStart atEnd ('#' :: '!' :: (body ++ cs))

theorem Unbroken.cons {c : Char} {cs : List Char} (hc : CharClass.isLineBreak c = false)
    (h : Unbroken cs) : Unbroken (c :: cs) :=
  List.forall_mem_cons.2 ⟨hc, h⟩

theorem Unbroken.nil : Unbroken [] := by simp [Unbroken]

theorem EndsLine.cons {atEnd : Prop} {c : Char} {cs : List Char}
    (h : CharClass.isLineBreak c = true) : EndsLine atEnd (c :: cs) :=
  ⟨by simpa using h, fun empty => absurd empty (List.cons_ne_nil c cs)⟩

theorem EndsLine.nil {atEnd : Prop} (h : atEnd) : EndsLine atEnd [] := ⟨by simp, fun _ => h⟩

theorem Unclosed.nil : Unclosed [] := by simp [Unclosed]

/-- A character before a comment that goes on with `ds` closes nothing unless it begins `*/`. -/
theorem Unclosed.cons {c : Char} {cs ds : List Char} (h : Unclosed cs) (front : cs <+: ds)
    (stays : ∀ es, c = '*' → ds = '/' :: es → False) : Unclosed (c :: cs) := by
  intro closed
  obtain closes | later := List.infix_cons_iff.1 closed
  · obtain ⟨rfl, after⟩ := List.cons_prefix_cons.1 closes
    obtain ⟨es, rfl⟩ := after.trans front
    exact stays es rfl rfl
  · exact h later

namespace Trivia

/-- What is passed over, by where reading stands: within a comment the rest of it comes first. -/
def Passed (atEnd : Prop) : Mode → List Char → Prop
  | .between, cs => IsTrivia atEnd cs
  | .inLine, cs =>
    ∃ body after, cs = body ++ after ∧ Unbroken body ∧ EndsLine atEnd after ∧ IsTrivia atEnd after
  | .inBlock _, cs => ∃ body, Unclosed body ∧
    ((∃ after, cs = body ++ '*' :: '/' :: after ∧ IsTrivia atEnd after) ∨ cs = body ∧ atEnd)

theorem read_passed (mode : Mode) (cs : List Char) :
    Passed (cs.drop (read mode cs).size = []) mode (cs.take (read mode cs).size) := by
  fun_induction read mode cs with
  | case1 cs ih =>
    obtain ⟨body, rest, heq, unbroken, ends, more⟩ := ih
    simp only [after, List.take_succ_cons, List.drop_succ_cons, heq]
    exact .lineComment unbroken ends more
  | case2 cs ih =>
    obtain ⟨body, unclosed, ⟨rest, heq, more⟩ | ⟨heq, ended⟩⟩ := ih
    · simp only [after, List.take_succ_cons, List.drop_succ_cons, heq]
      exact .blockComment unclosed more
    · simp only [after, List.take_succ_cons, List.drop_succ_cons, heq]
      exact .openComment unclosed ended
  | case3 c cs _ _ h ih =>
    simp only [afterChar, List.take_succ_cons, List.drop_succ_cons]
    rcases Bool.or_eq_true_iff.1 h with h | h
    · exact .lineBreak h ih
    · exact .blank h ih
  | case4 => exact .nil
  | case5 c cs ih =>
    simp only [afterChar, List.take_succ_cons, List.drop_succ_cons]
    by_cases h : CharClass.isLineBreak c = true
    · rw [if_pos h] at ih
      rw [if_pos h]
      exact ⟨[], _, rfl, .nil, .cons h, .lineBreak h ih⟩
    · rw [if_neg h] at ih
      rw [if_neg h]
      obtain ⟨body, rest, heq, unbroken, ends, more⟩ := ih
      exact ⟨c :: body, rest, by rw [heq, List.cons_append], unbroken.cons (by simpa using h), ends,
        more⟩
  | case6 length cs ih =>
    simp only [after, List.take_succ_cons, List.drop_succ_cons]
    exact ⟨[], .nil, .inl ⟨_, rfl, ih⟩⟩
  | case7 length c cs stays ih =>
    simp only [afterChar, List.take_succ_cons, List.drop_succ_cons]
    obtain ⟨body, unclosed, ⟨rest, heq, more⟩ | ⟨heq, ended⟩⟩ := ih
    · have front : body <+: cs := .trans ⟨_, heq.symm⟩ (List.take_prefix _ cs)
      exact ⟨c :: body, unclosed.cons front stays, .inl ⟨rest, by rw [heq, List.cons_append], more⟩⟩
    · have front : body <+: cs := heq ▸ List.take_prefix _ cs
      exact ⟨c :: body, unclosed.cons front stays, .inr ⟨by rw [heq], ended⟩⟩
  | case8 => exact ⟨[], .nil, .inr ⟨rfl, rfl⟩⟩
  | case9 mode notBlock =>
    cases mode with
    | between => exact .nil
    | inLine => exact ⟨[], [], rfl, .nil, .nil rfl, .nil⟩
    | inBlock length => exact absurd rfl (notBlock length)

/-- Reading notices a line break exactly when it passes over one. -/
theorem read_lineBreak (mode : Mode) (cs : List Char) :
    (read mode cs).lineBreak = (cs.take (read mode cs).size).any CharClass.isLineBreak := by
  fun_induction read mode cs with
  | case1 cs ih => simpa [after, CharClass.isLineBreak] using ih
  | case2 cs ih => simpa [after, CharClass.isLineBreak] using ih
  | case3 c cs _ _ _ ih => simp [afterChar, ih, Bool.or_comm]
  | case4 => rfl
  | case5 c cs ih => simp only [afterChar, List.take_succ_cons, List.any_cons, ih, Bool.or_comm]
  | case6 length cs ih => simpa [after, CharClass.isLineBreak] using ih
  | case7 length c cs _ ih => simp [afterChar, ih, Bool.or_comm]
  | case8 => rfl
  | case9 mode _ => cases mode <;> rfl

theorem ofChars_isGap (fileStart : Bool) (cs : List Char) :
    IsGap (fileStart = true) (cs.drop (ofChars fileStart cs).size = [])
      (cs.take (ofChars fileStart cs).size) := by
  unfold ofChars
  split
  · next cs =>
    split
    · next first =>
      obtain ⟨body, rest, heq, unbroken, ends, more⟩ := read_passed .inLine cs
      simp only [after, List.take_succ_cons, List.drop_succ_cons, heq]
      exact .shebang first unbroken ends more
    · exact .trivia .nil
  · exact .trivia (read_passed .between cs)

theorem ofChars_lineBreak (fileStart : Bool) (cs : List Char) :
    (ofChars fileStart cs).lineBreak =
      (cs.take (ofChars fileStart cs).size).any CharClass.isLineBreak := by
  unfold ofChars
  split
  · next cs =>
    split
    · simpa [after, CharClass.isLineBreak] using read_lineBreak .inLine cs
    · rfl
  · exact read_lineBreak .between cs

end Trivia

/-! ## Lexemes -/

namespace Kind

theorem spelledWords_wordText? :
    ∀ entry ∈ spelledWords, entry.2.wordText? = some entry.1 := by
  decide +kernel

/-- A word is read as the keyword that is spelled like it. -/
theorem wordText?_of_ofWord? {word : String} {k : Kind} (h : ofWord? word = some k) :
    k.wordText? = some word := by
  obtain ⟨front, back, hl, -⟩ := List.lookup_eq_some_iff.1 h
  exact spelledWords_wordText? (word, k) (by simp [hl])

/-- No keyword comes of reading a token again. -/
theorem wordText?_of_isReread {k : Kind} (h : k.isReread = true) : k.wordText? = none := by
  unfold isReread at h
  split at h <;> first | rfl | cases h

end Kind

namespace Lexeme

theorem spellings_wordText? : ∀ entry ∈ spellings, entry.2.wordText? = none := by
  decide +kernel

theorem word_word {cs : List Char} {w : String} (h : (word cs).kind.wordText? = some w) :
    cs.take (word cs).size = w.toList := by
  simp only [word] at h ⊢
  cases hk : Kind.ofWord? (String.ofList (cs.takeWhile CharClass.isIdentifierPart)) with
  | none =>
    rw [hk] at h
    cases h
  | some k =>
    rw [hk, Option.getD_some, Kind.wordText?_of_ofWord? hk, Option.some.injEq] at h
    rw [← h, String.toList_ofList]
    exact (List.prefix_iff_eq_take.1 (List.takeWhile_prefix _)).symm

theorem punctuation?_wordText? {cs : List Char} {l : Lexeme} (h : punctuation? cs = some l) :
    l.kind.wordText? = none := by
  obtain ⟨entry, hfind, rfl⟩ := Option.map_eq_some_iff.1 h
  exact spellings_wordText? entry (List.mem_of_find?_eq_some hfind)

/-- A keyword is taken from a text as it is spelled. -/
theorem ofChars_word {c : Char} {cs : List Char} {w : String}
    (h : (ofChars c cs).kind.wordText? = some w) :
    (c :: cs).take (ofChars c cs).size = w.toList := by
  unfold ofChars at h ⊢
  split at h
  · cases h
  split at h
  · simp only [template] at h
    split at h <;> cases h
  split at h
  · simp only [number] at h
    split at h <;> cases h
  split at h
  · next quote back digit start =>
    rw [if_neg quote, if_neg back, if_neg digit, if_pos start]
    exact word_word h
  split at h
  · next hp =>
    rw [punctuation?_wordText? hp] at h
    cases h
  · cases h

theorem radix?_afterLineBreak {c : Char} {radix : TokenFlags × (Char → Bool)}
    (h : radix? c = some radix) : radix.1.afterLineBreak = false := by
  unfold radix? at h
  split at h <;> cases h <;> rfl

theorem number_afterLineBreak (cs : List Char) : (number cs).flags.afterLineBreak = false := by
  show (numberForm cs).2.afterLineBreak = false
  unfold numberForm
  split
  · split
    · next h => exact radix?_afterLineBreak h
    · rfl
  · rfl

/-- Only what stands in front of a token tells whether a line break does. -/
theorem ofChars_afterLineBreak (c : Char) (cs : List Char) :
    (ofChars c cs).flags.afterLineBreak = false := by
  unfold ofChars
  split
  · rfl
  split
  · rfl
  split
  · exact number_afterLineBreak (c :: cs)
  split
  · rfl
  split
  · next h =>
    obtain ⟨entry, -, rfl⟩ := Option.map_eq_some_iff.1 h
    rfl
  · rfl

end Lexeme

/-! ## Tokens in a text -/

/-- The token is where it says it is, and its source is what its kind tells. -/
structure Token.Stands (text : List Char) (t : Token) : Prop where
  start_boundary : isBoundary t.start text = true
  stop_boundary : isBoundary t.stop text = true
  source : t.source = sliceBytes t.start t.stop text
  nonempty : t.kind ≠ .endOfFile → t.start < t.stop
  atEnd : t.kind = .endOfFile → t.start = byteLength text
  punctuation : ∀ p, t.kind.punctuationText? = some p → t.source = p.toList
  word : ∀ w, t.kind.wordText? = some w → t.source = w.toList

/-- The token `t` comes behind `s`, with nothing but trivia between the two. -/
structure Token.Follows (text : List Char) (s t : Token) : Prop where
  stop_le_start : s.stop ≤ t.start
  gap : IsGap (s.stop = 0) (t.start = byteLength text) (sliceBytes s.stop t.start text)
  afterLineBreak :
    t.flags.afterLineBreak = (sliceBytes s.stop t.start text).any CharClass.isLineBreak

namespace Scanner

variable {text : List Char} {s : Scanner}

@[simp] theorem take_afterLineBreak (start : Nat) (flags : TokenFlags) (l : Lexeme)
    (cs : List Char) (s : Scanner) : (s.take start flags l cs).token.flags.afterLineBreak =
      (flags.afterLineBreak || l.flags.afterLineBreak) := by
  simp [take, TokenFlags.union]

theorem next_afterLineBreak (s : Scanner) :
    s.next.token.flags.afterLineBreak = s.gap.any CharClass.isLineBreak := by
  rw [gap, ← Trivia.ofChars_lineBreak]
  unfold next
  dsimp only
  split
  · simp
  · next c cs _ => simp [Lexeme.ofChars_afterLineBreak c cs]

theorem gap_isGap (s : Scanner) : IsGap (s.token.stop = 0) (s.ahead = []) s.gap := by
  have h := Trivia.ofChars_isGap (s.token.stop == 0) s.rest
  rwa [beq_iff_eq] at h

theorem next_word {w : String} (h : s.next.token.kind.wordText? = some w) :
    s.next.token.source = w.toList := by
  cases hahead : s.ahead with
  | nil =>
    obtain ⟨before, flags, -, hnext⟩ := next_of_ahead_nil hahead
    rw [hnext, take_kind] at h
    cases h
  | cons c cs =>
    obtain ⟨before, flags, -, hnext⟩ := next_of_ahead_cons hahead
    rw [hnext, take_kind] at h
    rw [hnext, take_source]
    exact Lexeme.ofChars_word h

@[simp] theorem rescan_afterLineBreak (way : Rescan) (s : Scanner) :
    (s.rescan way).token.flags.afterLineBreak = s.token.flags.afterLineBreak := by
  cases way <;> simp only [Scanner.rescan, rescanGreaterThan, rescanSlash, rescanTemplate] <;>
    split <;> simp [retake, Lexeme.regularExpression, Lexeme.template]

/-- What follows a token is found behind it, with the trivia between the two. -/
theorem follows_next (place : StandsAt text s.token.stop s.rest) :
    s.token.Follows text s.next.token := by
  have gap : sliceBytes s.token.stop s.next.token.start text = s.gap := by
    rw [next_start]
    rw [← s.gap_append_ahead] at place
    exact place.slice
  have ended : s.ahead = [] ↔ s.next.token.start = byteLength text := by
    have := (sound_next place).length_eq
    rw [next_fromToken] at this
    rw [← byteLength_eq_zero_iff]
    omega
  refine ⟨?_, ?_, ?_⟩
  · rw [next_start]
    exact Nat.le_add_right _ _
  · rw [gap, ← ended]
    exact s.gap_isGap
  · rw [gap]
    exact s.next_afterLineBreak

/-! ## Calls -/

/-- A call to a scanner. -/
inductive Call where
  | next
  | again (way : Rescan)
  deriving Repr, DecidableEq

def call : Call → Scanner → Scanner
  | .next, s => s.next
  | .again way, s => s.rescan way

/-- The scanner after some calls. -/
def calls (cs : List Call) (s : Scanner) : Scanner := cs.foldl (fun s c => s.call c) s

/-- What is known after some calls, `n` of them to move on. Until the first of these nothing is
read; then the scanner is sound and has passed at least a byte with each call. -/
structure Reached (text : List Char) (n : Nat) (s : Scanner) : Prop where
  place : StandsAt text s.token.stop s.rest
  untouched : n = 0 → s.token.kind = .unknown
  sound : n ≠ 0 → s.Sound text
  word : ∀ w, s.token.kind.wordText? = some w → s.token.source = w.toList
  progress : s.token.kind = .endOfFile ∨ n ≤ s.token.stop

theorem reached_ofText (file : String) (text : List Char) : (ofText file text).Reached text 0 where
  place := .zero text
  untouched _ := rfl
  sound h := absurd rfl h
  word _ h := by cases h
  progress := .inr (Nat.zero_le _)

/-- A token that is read again reaches at least as far as before. -/
theorem Sound.stop_le_rescan (h : s.Sound text) (way : Rescan) :
    s.token.stop ≤ (s.rescan way).token.stop := by
  obtain same | ⟨-, l, again, size, -⟩ := h.rescan_cases way
  · exact Nat.le_of_eq (by rw [same])
  · have grows : s.token.source <+: s.fromToken.take l.size :=
      List.prefix_take_iff.2 ⟨List.prefix_append _ _, size⟩
    obtain ⟨more, heq⟩ := grows
    have source : (s.retake l).token.source = s.token.source ++ more := by
      rw [Scanner.retake, take_source, heq]
    rw [again, Token.stop, Token.stop, source, byteLength_append, Scanner.retake, take_start]
    omega

theorem rescan_of_unknown (h : s.token.kind = .unknown) (way : Rescan) : s.rescan way = s := by
  cases way <;> simp [Scanner.rescan, rescanGreaterThan, rescanSlash, rescanTemplate, h]

namespace Reached

variable {n : Nat}

theorem next (h : s.Reached text n) : s.next.Reached text (n + 1) where
  place := (sound_next h.place).rest
  untouched first := absurd first (Nat.succ_ne_zero n)
  sound _ := sound_next h.place
  word _ := next_word
  progress := by
    by_cases atEnd : s.next.token.kind = .endOfFile
    · exact .inl atEnd
    have length := (sound_next h.place).length_pos atEnd
    have le := (follows_next h.place).stop_le_start
    obtain ended | passed := h.progress
    · -- nothing is read before the first call to move on, so the text is not over there
      have started : n ≠ 0 := fun first => by simp [h.untouched first] at ended
      exact absurd ((h.sound started).next_endOfFile ended) atEnd
    · refine .inr ?_
      rw [Token.stop]
      omega

theorem rescan (h : s.Reached text n) (way : Rescan) : (s.rescan way).Reached text n := by
  by_cases first : n = 0
  · rwa [rescan_of_unknown (h.untouched first)]
  have sound := h.sound first
  refine ⟨(sound.rescan way).rest, fun zero => absurd zero first, fun _ => sound.rescan way, ?_, ?_⟩
  · obtain same | ⟨-, l, again, -, reread⟩ := sound.rescan_cases way
    · rw [same]
      exact h.word
    · intro w hw
      rw [again, retake, take_kind, Kind.wordText?_of_isReread reread] at hw
      cases hw
  · obtain ended | passed := h.progress
    · exact .inl (sound.rescan_endOfFile ended way)
    · exact .inr (Nat.le_trans passed (sound.stop_le_rescan way))

theorem calls {s : Scanner} (h : s.Reached text n) (cs : List Call) :
    (s.calls cs).Reached text (n + cs.count .next) := by
  induction cs generalizing s n with
  | nil => exact h
  | cons c cs ih =>
    cases c with
    | next =>
      rw [List.count_cons_self, ← Nat.add_assoc, Nat.add_right_comm]
      exact ih h.next
    | again way =>
      rw [List.count_cons_of_ne (by simp)]
      exact ih (h.rescan way)

end Reached

theorem Sound.stands (h : s.Sound text)
    (word : ∀ w, s.token.kind.wordText? = some w → s.token.source = w.toList) :
    s.token.Stands text where
  start_boundary := h.place.isBoundary
  stop_boundary := h.rest.isBoundary
  source := h.place.slice.symm
  nonempty more := Nat.lt_add_of_pos_right (h.length_pos more)
  atEnd ended := by
    have := h.length_eq
    rwa [h.atEnd ended, byteLength_nil] at this
  punctuation := h.spelled
  word := word

/-- A token that is read again begins where it did, behind the same trivia. -/
theorem follows_rescan {t : Token} (h : t.Follows text s.token) (way : Rescan) :
    t.Follows text (s.rescan way).token := by
  obtain ⟨le, gap, afterLineBreak⟩ := h
  refine ⟨?_, ?_, ?_⟩
  · rwa [rescan_start]
  · rwa [rescan_start]
  · rwa [rescan_start, rescan_afterLineBreak]

theorem follows_calls {t : Token} (h : t.Follows text s.token) (ways : List Rescan) :
    t.Follows text (s.calls (ways.map .again)).token := by
  induction ways generalizing s with
  | nil => exact h
  | cons way ways ih => exact ih (follows_rescan h way)

/-- How the tokens of a text tile it, seen from a scanner that was moved on `n` times. -/
structure Tiles (text : List Char) (n : Nat) (s : Scanner) : Prop where
  /-- The current token stands in the text, once there is one. -/
  stands : 0 < n → s.token.Stands text
  /-- The next token follows it, however often it is read again. -/
  follows : ∀ ways : List Rescan,
    s.token.Follows text (s.calls (.next :: ways.map .again)).token
  /-- To read it again leaves its beginning and moves its end on at most. -/
  again : ∀ way, (s.rescan way).token.start = s.token.start ∧
    s.token.stop ≤ (s.rescan way).token.stop
  /-- The text is over after a call for each byte and one more. -/
  ended : byteLength text < n → s.token.kind = .endOfFile
  /-- Where the text is over it stays so. -/
  stays : s.token.kind = .endOfFile → ∀ more, (s.calls more).token.kind = .endOfFile

theorem Sound.calls_endOfFile (h : s.Sound text) (atEnd : s.token.kind = .endOfFile)
    (cs : List Call) : (s.calls cs).token.kind = .endOfFile := by
  induction cs generalizing s with
  | nil => exact atEnd
  | cons c cs ih =>
    cases c with
    | next => exact ih h.next (h.next_endOfFile atEnd)
    | again way => exact ih (h.rescan way) (h.rescan_endOfFile atEnd way)

theorem Reached.tiles {n : Nat} (h : s.Reached text n) : s.Tiles text n where
  stands first := (h.sound (Nat.ne_of_gt first)).stands h.word
  follows := follows_calls (follows_next h.place)
  again way := by
    refine ⟨rescan_start way s, ?_⟩
    by_cases first : n = 0
    · exact Nat.le_of_eq (by rw [rescan_of_unknown (h.untouched first)])
    · exact (h.sound first).stop_le_rescan way
  ended past := h.progress.resolve_right fun passed => by
    have := h.place.le
    omega
  stays atEnd more := by
    have started : n ≠ 0 := fun first => by simp [h.untouched first] at atEnd
    exact (h.sound started).calls_endOfFile atEnd more

/-- Whatever calls are made to a scanner, the tokens it reads tile the text. -/
theorem calls_tile (file : String) (text : List Char) (cs : List Call) :
    ((ofText file text).calls cs).Tiles text (cs.count .next) := by
  have reached := (reached_ofText file text).calls cs
  rw [Nat.zero_add] at reached
  exact reached.tiles

/-- Read again as a template, a brace takes what would have been trivia behind it. -/
example : ((ofText "a.ts" "\x7d/*\n*/\x60".toList).calls [.next, .again .template]).token.source =
    "\x7d/*\n*/\x60".toList := by decide

end Scanner

end FactorySync
