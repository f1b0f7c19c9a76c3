import FactorySync.Proofs.Gaps
import FactorySync.Proofs.Quoting
import FactorySync.Proofs.Spelling

/-!
# Texts made of words

What is printed is a row of words with blanks between some of them, and on more than one line with
line breaks and comments between some (`Trivia.Passes`). `Spells tail cs ws` says that the text `cs`
is the row `ws` and then `tail`, each word being read as itself in front of what follows it
(`Word.Before`). The scanner goes from word to word and notes nothing (`Spells.faces`); where the
text goes on behind the row, the row is the beginning of a longer one (`Spells.faces_more`).
-/

namespace FactorySync

theorem IsWord.parts {x : String} (word : IsWord x) :
    ∀ c ∈ x.toList, CharClass.isIdentifierPart c = true := by
  obtain ⟨c, cs, text, start, parts⟩ := word
  rw [text]
  exact List.forall_mem_cons.2 ⟨CharClass.isIdentifierPart_of_isIdentifierStart start, parts⟩

theorem IsWord.oneLine {x : String} (word : IsWord x) : OneLine x.toList := by
  intro c hc
  have part := word.parts c hc
  constructor <;> rintro rfl <;> exact absurd part (by decide)

/-! ## Marks -/

namespace CharClass

/-- The characters that break a line or are blank, apart from those that stand in a row. -/
def gaps : List Char :=
  ['\n', '\r', '\u2028', '\u2029', ' ', '\t', '\x0b', '\x0c', '\u00a0', '\u1680', '\u202f',
    '\u205f', '\u3000', '\ufeff']

theorem mem_gaps {c : Char} (gap : (isLineBreak c || isBlank c) = true) :
    c ∈ gaps ∨ '\u2000' ≤ c ∧ c ≤ '\u200a' := by
  simp only [isLineBreak, isBlank, Bool.or_eq_true, Bool.and_eq_true, beq_iff_eq,
    decide_eq_true_eq] at gap
  simp only [gaps, List.mem_cons, List.not_mem_nil, or_false]
  grind

/-- No name begins with a character of a row in which none does. -/
theorem not_start_of_between {c : Char} (first count : Nat)
    (row : ∀ n ∈ List.range' first count, isIdentifierStart (Char.ofNat n) = false)
    (le : first ≤ c.toNat) (lt : c.toNat < first + count) : isIdentifierStart c = false := by
  rw [← Char.ofNat_toNat c]
  exact row _ (List.mem_range'_1.2 ⟨le, lt⟩)

theorem not_gap_of_start {c : Char} (start : isIdentifierStart c = true) :
    (isLineBreak c || isBlank c) = false := by
  refine Bool.eq_false_iff.2 fun gap => Bool.false_ne_true ?_
  rw [← start]
  obtain mem | ⟨le, ge⟩ := mem_gaps gap
  · have single : (gaps.all fun d => !isIdentifierStart d) = true := by decide +kernel
    exact (Bool.not_inj (List.all_eq_true.1 single c mem)).symm
  · exact (not_start_of_between 0x2000 11 (by decide +kernel) le
      (Nat.lt_succ_of_le ge)).symm

theorem not_digit_of_start {c : Char} (start : isIdentifierStart c = true) : isDigit c = false := by
  refine Bool.eq_false_iff.2 fun digit => Bool.false_ne_true ?_
  rw [← start]
  simp only [isDigit, Bool.and_eq_true, decide_eq_true_eq] at digit
  exact (not_start_of_between 48 10 (by decide +kernel) digit.1
    (Nat.lt_succ_of_le digit.2)).symm

/-- Whether a token that begins with the character can only be a mark. -/
def beginsMark (c : Char) : Bool :=
  !(isLineBreak c || isBlank c || c == '/' || c == '#' || c == '"' || c == '\'' || c == '\x60' ||
    isDigit c || isIdentifierStart c)

end CharClass

/-- Only a `#` makes a difference at the start of a file. -/
theorem Trivia.ofChars_of_ne {c : Char} {fileStart : Bool} {cs : List Char} (hash : c ≠ '#') :
    Trivia.ofChars fileStart (c :: cs) = Trivia.read .between (c :: cs) := by
  rw [Trivia.ofChars.eq_2]
  rintro ds ⟨⟩
  contradiction

/-- No trivia begins with such a character. -/
theorem Trivia.ofChars_of_not_gap {c : Char} {fileStart : Bool} {cs : List Char}
    (gap : (CharClass.isLineBreak c || CharClass.isBlank c) = false) (slash : c ≠ '/')
    (hash : c ≠ '#') : Trivia.ofChars fileStart (c :: cs) = {} := by
  rw [Trivia.ofChars_of_ne hash, Trivia.read.eq_3, gap]
  · rfl
  all_goals
    intro ds h
    cases h
    contradiction

namespace Lexeme

/-- The characters that make another mark of one that begins with this character. -/
def continuing (c : Char) : List Char :=
  spellings.filterMap fun entry =>
    match entry.1 with
    | a :: b :: _ => if a = c then some b else none
    | _ => none

theorem spellings_unique : ∀ entry ∈ spellings, ∀ other ∈ spellings,
    entry.1 = other.1 → entry = other := by
  decide +kernel

theorem spellings_ne_nil : ∀ entry ∈ spellings, entry.1 ≠ [] := by
  decide +kernel

/-- A blank makes no mark longer. -/
theorem blank_not_continuing (c : Char) : ' ' ∉ continuing c := by
  have solid : ∀ entry ∈ spellings, ' ' ∉ entry.1 := by decide +kernel
  intro more
  obtain ⟨⟨text, k⟩, mem, second⟩ := List.mem_filterMap.1 more
  rcases text with - | ⟨a, - | ⟨b, text⟩⟩
  · cases second
  · cases second
  · dsimp only at second
    split at second
    · obtain rfl := Option.some_inj.1 second
      exact solid _ mem (.tail _ (.head _))
    · cases second

/-- A mark of one character that what follows does not make longer. -/
theorem punctuation?_single {c : Char} {k : Kind} {cs : List Char} (spelled : ([c], k) ∈ spellings)
    (follow : ∀ d ∈ cs.head?, d ∉ continuing c) :
    punctuation? (c :: cs) = some { kind := k, size := 1 } := by
  have single : ∀ entry ∈ spellings, entry.1.isPrefixOf (c :: cs) = true → entry = ([c], k) := by
    intro entry mem front
    refine spellings_unique entry mem _ spelled ?_
    obtain ⟨text, kind⟩ := entry
    match text, front with
    | [], _ => exact absurd rfl (spellings_ne_nil _ mem)
    | [a], front => simpa using front
    | a :: b :: more, front =>
      -- then the second character of the mark is the one that follows
      obtain ⟨rfl, d, ds, rfl⟩ : a = c ∧ ∃ ds, cs = b :: ds := by
        cases cs with
        | nil => simp at front
        | cons d ds =>
          simp only [List.isPrefixOf_cons_cons, Bool.and_eq_true, beq_iff_eq] at front
          exact ⟨front.1, ds, front.2.1 ▸ rfl⟩
      exact absurd (List.mem_filterMap.2 ⟨_, mem, if_pos rfl⟩) (follow b rfl)
  have fits : fits (c :: cs) ([c], k) = true := by
    have : k ≠ .questionDot := by
      rintro rfl
      have length : ∀ entry ∈ spellings, entry.2 = .questionDot → entry.1.length = 2 := by
        decide +kernel
      cases length _ spelled rfl
    simp [Lexeme.fits, this]
  rw [punctuation?]
  cases found : spellings.find? (Lexeme.fits (c :: cs)) with
  | none => exact absurd fits (List.find?_eq_none.1 found _ spelled)
  | some entry =>
    have front := List.find?_some found
    rw [Lexeme.fits, Bool.and_eq_true] at front
    rw [single entry (List.mem_of_find?_eq_some found) front.1]
    rfl

end Lexeme

/-! ## Words -/

/-- A token as it is written. -/
structure Word where
  kind : Kind
  source : List Char
  value : String := ""
  singleQuoted : Bool := false
  /-- Whether a line break stands in front of it. -/
  startsLine : Bool := false

namespace Word

def onNewLine (w : Word) : Word := { w with startsLine := true }

/-- What the scanner makes of the word. -/
def lexeme (w : Word) : Lexeme where
  kind := w.kind
  size := w.source.length
  value := w.value.toList
  flags := { singleQuoted := w.singleQuoted }

/-- The word is read as itself where this text follows it. -/
structure Before (w : Word) (cs : List Char) : Prop where
  lexeme : ∃ c ds, w.source ++ cs = c :: ds ∧ Lexeme.ofChars c ds = w.lexeme
  trivia : ∀ fileStart, Trivia.ofChars fileStart (w.source ++ cs) = {}

/-- The text does not go on with a character that would make a name longer. -/
def EndsName (cs : List Char) : Prop := ∀ c ∈ cs.head?, CharClass.isIdentifierPart c = false

theorem endsName_cons {c : Char} {cs : List Char} (h : CharClass.isIdentifierPart c = false) :
    EndsName (c :: cs) :=
  fun _ hd => (show c = _ from Option.some_inj.1 hd) ▸ h

/-- A name, or a keyword that is spelled like the name. -/
def name (name : String) : Word := { kind := .ofName name, source := name.toList, value := name }

@[simp] theorem name_source (x : String) : (name x).source = x.toList := rfl

def keyword (k : Kind) : Word where
  kind := k
  source := (k.wordText?.getD "").toList
  value := k.wordText?.getD ""

/-- Punctuation of one character. -/
def mark (k : Kind) (c : Char) : Word := { kind := k, source := [c] }

/-- `...` -/
def dots : Word := { kind := .dotDotDot, source := ['.', '.', '.'] }

/-- `===` -/
def identical : Word := { kind := .equalsEqualsEquals, source := ['=', '=', '='] }

/-- The character alone is this punctuation. -/
def IsMark (k : Kind) (c : Char) : Prop :=
  ([c], k) ∈ Lexeme.spellings ∧ CharClass.beginsMark c = true

instance (k : Kind) (c : Char) : Decidable (IsMark k c) := inferInstanceAs (Decidable (_ ∧ _))

/-- The marks of the texts that are printed which no other character makes longer. -/
def wholeMarks : List (Kind × Char) :=
  [(.openBrace, '\x7b'), (.closeBrace, '\x7d'), (.openParen, '('), (.closeParen, ')'),
   (.openBracket, '['), (.closeBracket, ']'), (.semicolon, ';'), (.comma, ','), (.colon, ':'),
   (.greaterThan, '>')]

/-- The marks of the texts that are printed which are longer marks with other characters behind
them. -/
def openMarks : List (Kind × Char) :=
  [(.dot, '.'), (.lessThan, '<'), (.equals, '='), (.asterisk, '*'), (.question, '?'), (.bar, '|'),
   (.ampersand, '&')]

theorem isMark_of_mem : ∀ mark ∈ wholeMarks ++ openMarks, IsMark mark.1 mark.2 := by
  decide +kernel

theorem whole_of_mem : ∀ mark ∈ wholeMarks, mark.2 ≠ '.' ∧ Lexeme.continuing mark.2 = [] := by
  decide +kernel

/-- A string in quote marks. -/
def quoted (q : QuoteMark) (value : String) : Word where
  kind := .stringLiteral
  source := q.quoted value.toList
  value
  singleQuoted := q == .single

/-- Items with commas between them. -/
def list {β : Type} (words : β → List Word) : List β → List Word
  | [] => []
  | [b] => words b
  | b :: items => words b ++ .mark .comma ',' :: list words items

/-- Rows of words with a word between them. -/
def joined (between : Word) : List (List Word) → List Word
  | [] => []
  | [ws] => ws
  | ws :: rows => ws ++ between :: joined between rows

theorem joined_cons (between : Word) (ws : List Word) (rows : List (List Word)) :
    joined between (ws :: rows) = ws ++ rows.flatMap (between :: ·) := by
  induction rows generalizing ws with
  | nil => exact (List.append_nil ws).symm
  | cons row rows ih => exact congrArg (ws ++ between :: ·) (ih row)

theorem list_eq_joined {β : Type} (words : β → List Word) (items : List β) :
    list words items = joined (.mark .comma ',') (items.map words) := by
  induction items with
  | nil => rfl
  | cons b items ih =>
    cases items with
    | nil => rfl
    | cons b' items => exact congrArg (words b ++ .mark .comma ',' :: ·) ih

/-- What holds of the words of all items and of the comma holds of the words of the list. -/
theorem list_forall {β : Type} {words : β → List Word} {items : List β} {P : Word → Prop}
    (comma : P (.mark .comma ',')) (item : ∀ b ∈ items, ∀ w ∈ words b, P w) :
    ∀ w ∈ list words items, P w := by
  induction items with
  | nil => exact List.forall_mem_nil _
  | cons b items ih =>
    obtain ⟨first, others⟩ := List.forall_mem_cons.1 item
    cases items with
    | nil => exact first
    | cons b' items =>
      exact List.forall_mem_append.2 ⟨first, List.forall_mem_cons.2 ⟨comma, ih others⟩⟩

/-- What stands where the text is over. -/
def ending : Word := { kind := .endOfFile, source := [] }

variable {cs : List Char}

theorem before_name {name : String} (word : IsWord name) (ends : EndsName cs) :
    (Word.name name).Before cs := by
  obtain ⟨c, ds, text, start, parts⟩ := word
  have gap := CharClass.not_gap_of_start start
  have special : ∀ d : Char, CharClass.isIdentifierStart d = false → c ≠ d := by
    rintro d hd rfl
    rw [start] at hd
    cases hd
  refine ⟨⟨c, ds ++ cs, congrArg (· ++ cs) text, ?_⟩, fun fileStart => ?_⟩
  · have length : (c :: (ds ++ cs)).takeWhile CharClass.isIdentifierPart = c :: ds := by
      rw [List.takeWhile_cons_of_pos (CharClass.isIdentifierPart_of_isIdentifierStart start),
        List.takeWhile_append_of_pos parts]
      cases cs with
      | nil => simp
      | cons d cs => rw [List.takeWhile_cons_of_neg (by simp [ends d rfl]), List.append_nil]
    have number : (CharClass.isDigit c || (c == '.' && Lexeme.beginsWithDigit (ds ++ cs))) = false := by
      rw [CharClass.not_digit_of_start start, beq_false_of_ne (special '.' (by decide))]
      rfl
    have quote : ¬ (c = '"' ∨ c = '\'') :=
      not_or.2 ⟨special '"' (by decide), special '\'' (by decide +kernel)⟩
    rw [Lexeme.ofChars, if_neg (by simpa using quote), if_neg (special '\x60' (by decide)),
      number, if_neg Bool.false_ne_true, if_pos start, Lexeme.word, length]
    have : String.ofList (c :: ds) = name := by rw [← text, String.ofList_toList]
    simp [lexeme, Word.name, Kind.ofName, this, text]
  · rw [Word.name, text]
    exact Trivia.ofChars_of_not_gap gap (special '/' (by decide)) (special '#' (by decide))

theorem before_keyword {k : Kind} (isWord : k ∈ Kind.reservedWords ++ Kind.contextualWords)
    (ends : EndsName cs) : (Word.keyword k).Before cs := by
  obtain ⟨word, kind⟩ := Kind.keyword_spelled k isWord
  have same : Word.keyword k = .name (k.wordText?.getD "") := by rw [Word.name, kind, Word.keyword]
  rw [same]
  exact before_name word ends

theorem before_mark {k : Kind} {c : Char} (mark : IsMark k c)
    (follow : ∀ d ∈ cs.head?, d ∉ Lexeme.continuing c ∧ (c = '.' → CharClass.isDigit d = false)) :
    (Word.mark k c).Before cs := by
  obtain ⟨spelled, begins⟩ := mark
  simp only [CharClass.beginsMark, Bool.not_eq_true', Bool.or_eq_false_iff,
    beq_eq_false_iff_ne] at begins
  obtain ⟨⟨⟨⟨⟨⟨⟨⟨lineBreak, blank⟩, slash⟩, hash⟩, double⟩, single⟩, back⟩, digit⟩, start⟩ := begins
  refine ⟨⟨c, cs, rfl, ?_⟩,
    fun fileStart => Trivia.ofChars_of_not_gap (by simp [lineBreak, blank]) slash hash⟩
  have number : (CharClass.isDigit c || (c == '.' && Lexeme.beginsWithDigit cs)) = false := by
    rw [digit, Bool.false_or, Bool.and_eq_false_imp]
    intro dot
    cases cs with
    | nil => rfl
    | cons d cs => exact (follow d rfl).2 (beq_iff_eq.1 dot)
  rw [Lexeme.ofChars, if_neg (by simp [double, single]), if_neg back, number,
    if_neg Bool.false_ne_true, if_neg (by simp [start]),
    Lexeme.punctuation?_single spelled fun d hd => (follow d hd).1]
  rfl

/-- A mark that no other character makes longer. -/
theorem before_alone {k : Kind} {c : Char} (whole : (k, c) ∈ wholeMarks) :
    (Word.mark k c).Before cs := by
  obtain ⟨noDot, alone⟩ := whole_of_mem (k, c) whole
  exact before_mark (isMark_of_mem (k, c) (List.mem_append_left _ whole))
    fun d _ => ⟨by simp [alone], fun dot => absurd dot noDot⟩

/-- A mark in front of a blank. -/
theorem before_blank {k : Kind} {c : Char} (mark : (k, c) ∈ wholeMarks ++ openMarks) :
    (Word.mark k c).Before (' ' :: cs) := by
  refine before_mark (isMark_of_mem (k, c) mark) fun d hd => ?_
  obtain rfl := Option.some_inj.1 hd
  exact ⟨Lexeme.blank_not_continuing c, fun _ => rfl⟩

/-- A question mark in front of a colon. -/
theorem before_colon : (Word.mark .question '?').Before (':' :: cs) := by
  have other : ':' ∉ Lexeme.continuing '?' := by decide +kernel
  refine before_mark (isMark_of_mem (.question, '?') (by decide)) fun d hd => ?_
  obtain rfl := Option.some_inj.1 hd
  exact ⟨other, fun _ => rfl⟩

theorem before_dots : Word.dots.Before cs where
  lexeme := ⟨'.', '.' :: '.' :: cs, rfl, rfl⟩
  trivia _ := Trivia.ofChars_of_not_gap rfl (by decide) (by decide)

theorem before_identical : Word.identical.Before cs where
  lexeme := ⟨'=', '=' :: '=' :: cs, rfl, rfl⟩
  trivia _ := Trivia.ofChars_of_not_gap rfl (by decide) (by decide)

theorem before_quoted {q : QuoteMark} {value : String} (line : OneLine value.toList) :
    (Word.quoted q value).Before cs := by
  refine ⟨⟨_, _, QuoteMark.quoted_append, ?_⟩, fun fileStart => ?_⟩
  · rw [QuoteMark.ofChars_quote, QuoteMark.string_quoted line]
    rfl
  · rw [Word.quoted, QuoteMark.quoted_append]
    exact QuoteMark.ofChars_trivia _ _

end Word

/-! ## Rows of words -/

/-- The text is a row of words with `tail` behind it. -/
inductive Spells (tail : List Char) : List Char → List Word → Prop
  | done : Spells tail tail []
  | blank {cs : List Char} {ws : List Word} (rest : Spells tail cs ws) :
      Spells tail (' ' :: cs) ws
  | word {w : Word} {cs : List Char} {ws : List Word} (sameLine : w.startsLine = false)
      (before : w.Before cs) (rest : Spells tail cs ws) : Spells tail (w.source ++ cs) (w :: ws)
  | line {gap : List Char} {w : Word} {cs : List Char} {ws : List Word}
      (breaks : Trivia.Passes gap true) (before : w.Before cs) (rest : Spells tail cs ws) :
      Spells tail (gap ++ (w.source ++ cs)) (w.onNewLine :: ws)

namespace Spells

variable {tail cs : List Char} {ws : List Word}

/-! ### Printing words -/

theorem name {x : String} (h : Spells tail cs ws) (word : IsWord x) (ends : Word.EndsName cs) :
    Spells tail (x.toList ++ cs) (.name x :: ws) :=
  .word rfl (Word.before_name word ends) h

/-- A name with a blank behind it. -/
theorem nameBlank {x : String} (h : Spells tail cs ws) (word : IsWord x) :
    Spells tail (x.toList ++ ' ' :: cs) (.name x :: ws) :=
  h.blank.name word (Word.endsName_cons (by decide))

theorem wholeKeyword {k : Kind} (h : Spells tail cs ws)
    (isWord : k ∈ Kind.reservedWords ++ Kind.contextualWords) (ends : Word.EndsName cs) :
    Spells tail ((Word.keyword k).source ++ cs) (.keyword k :: ws) :=
  .word rfl (Word.before_keyword isWord ends) h

/-- A keyword with a blank behind it. -/
theorem keyword {k : Kind} (h : Spells tail cs ws)
    (isWord : k ∈ Kind.reservedWords ++ Kind.contextualWords) :
    Spells tail ((Word.keyword k).source ++ ' ' :: cs) (.keyword k :: ws) :=
  h.blank.wholeKeyword isWord (Word.endsName_cons (by decide))

/-- A mark that no other character makes longer. -/
theorem mark {k : Kind} {c : Char} (h : Spells tail cs ws) (whole : (k, c) ∈ Word.wholeMarks) :
    Spells tail (c :: cs) (.mark k c :: ws) :=
  .word rfl (Word.before_alone whole) h

/-- A mark with a blank behind it. -/
theorem markBlank {k : Kind} {c : Char} (h : Spells tail cs ws)
    (mark : (k, c) ∈ Word.wholeMarks ++ Word.openMarks) :
    Spells tail (c :: ' ' :: cs) (.mark k c :: ws) :=
  .word rfl (Word.before_blank mark) h.blank

theorem quoted {q : QuoteMark} {value : String} (h : Spells tail cs ws)
    (line : OneLine value.toList) :
    Spells tail (q.quoted value.toList ++ cs) (.quoted q value :: ws) :=
  .word rfl (Word.before_quoted line) h

/-- Items with the same text between them, where each item is a row of words in front of that text
and of what follows the last item. -/
theorem joined {β : Type} {text : β → List Char} {words : β → List Word} {items : List β}
    {Fits : List Char → Prop} {sep : List Char} {between : Word}
    (separates : ∀ {cs ws}, Spells tail cs ws → Spells tail (sep ++ cs) (between :: ws))
    (fitsSep : ∀ cs, Fits (sep ++ cs))
    (item : ∀ b ∈ items, ∀ {cs ws}, Spells tail cs ws → Fits cs →
      Spells tail (text b ++ cs) (words b ++ ws))
    (h : Spells tail cs ws) (fits : Fits cs) :
    Spells tail (sep.intercalate (items.map text) ++ cs)
      (Word.joined between (items.map words) ++ ws) := by
  induction items with
  | nil => exact h
  | cons b items ih =>
    obtain ⟨first, others⟩ := List.forall_mem_cons.1 item
    cases items with
    | nil =>
      rw [List.map_singleton, List.intercalate_singleton]
      exact first h fits
    | cons b' items =>
      have all := first (separates (ih others)) (fitsSep _)
      rw [List.map_cons, List.map_cons, List.intercalate_cons_cons]
      simpa [Word.joined] using all

/-- A list with commas, where each item is a row of words in front of a comma and of what follows
the list. -/
theorem list {β : Type} {text : β → List Char} {words : β → List Word} {items : List β}
    {Fits : List Char → Prop} (comma : ∀ cs, Fits (',' :: cs))
    (item : ∀ b ∈ items, ∀ {cs ws}, Spells tail cs ws → Fits cs →
      Spells tail (text b ++ cs) (words b ++ ws))
    (h : Spells tail cs ws) (fits : Fits cs) :
    Spells tail ([',', ' '].intercalate (items.map text) ++ cs) (Word.list words items ++ ws) := by
  rw [Word.list_eq_joined]
  exact joined (fun h => h.blank.mark (by decide)) (fun _ => comma _) item h fits

/-! ### The first word -/

theorem ofChars_blank {fileStart : Bool} :
    Trivia.ofChars fileStart (' ' :: cs) = (Trivia.ofChars false cs).afterChar ' ' := by
  rw [Trivia.ofChars_false]
  rfl

theorem ofChars_blanks {fileStart : Bool} (n : Nat) :
    Trivia.ofChars fileStart (List.replicate n ' ') = { size := n } := by
  induction n generalizing fileStart with
  | zero => cases fileStart <;> rfl
  | succ n ih =>
    rw [List.replicate_succ, ofChars_blank, ih]
    rfl

/-- Only blanks stand behind the last word. -/
theorem front_nil (h : Spells tail cs []) : ∃ n, cs = List.replicate n ' ' ++ tail := by
  generalize hws : ([] : List Word) = ws at h
  induction h with
  | done => exact ⟨0, rfl⟩
  | blank _ ih =>
    obtain ⟨n, rfl⟩ := ih hws
    exact ⟨n + 1, rfl⟩
  | word => cases hws
  | line => cases hws

/-- Blanks stand in front of the first word, and a line break among them if it starts a line. -/
theorem front {w : Word} (h : Spells tail cs (w :: ws)) (fileStart : Bool) : ∃ n ds,
    Trivia.ofChars fileStart cs = { size := n, lineBreak := w.startsLine } ∧
      cs.drop n = w.source ++ ds ∧ w.Before ds ∧ Spells tail ds ws := by
  generalize hws : w :: ws = row at h
  induction h generalizing fileStart with
  | done => cases hws
  | blank _ ih =>
    obtain ⟨n, ds, trivia, front⟩ := ih false hws
    refine ⟨n + 1, ds, ?_, front⟩
    rw [ofChars_blank, trivia]
    exact congrArg (Trivia.mk (n + 1) · none) (Bool.or_false w.startsLine)
  | word sameLine before rest =>
    cases hws
    exact ⟨0, _, sameLine ▸ before.trivia fileStart, rfl, before, rest⟩
  | @line gap w' cs' _ breaks before rest =>
    cases hws
    have alone := before.trivia false
    rw [Trivia.ofChars_false] at alone
    refine ⟨gap.length, cs', ?_, List.drop_left, ⟨before.lexeme, before.trivia⟩, rest⟩
    obtain ⟨c, gap, rfl, noHash⟩ := breaks.begins
    have read := breaks (w'.source ++ cs')
    rw [alone] at read
    rw [List.cons_append, Trivia.ofChars_of_ne noHash]
    simpa [Word.onNewLine] using read

end Spells

/-! ## Scanning a row of words -/

/-- The token is the word. -/
structure Token.Is (t : Token) (w : Word) : Prop where
  kind : t.kind = w.kind
  value : t.value = w.value
  singleQuoted : t.flags.singleQuoted = w.singleQuoted
  startsLine : t.flags.afterLineBreak = w.startsLine

/-- The word that a token is. -/
def Token.word (t : Token) : Word where
  kind := t.kind
  source := t.source
  value := t.value
  singleQuoted := t.flags.singleQuoted
  startsLine := t.flags.afterLineBreak

theorem Token.is_word (t : Token) : t.Is t.word := ⟨rfl, rfl, rfl, rfl⟩

namespace Scanner

/-- From the current token on the tokens are the words, up to the end of the text. If `clean` holds,
nothing has been noted on the way. -/
inductive Faces (clean : Bool) : Scanner → List Word → Prop
  | ending {s : Scanner} (token : s.token.Is .ending) (rest : s.rest = [])
      (noted : clean = true → s.diagnostics = []) : Faces clean s []
  | word {s : Scanner} {w : Word} {ws : List Word} (token : s.token.Is w)
      (noted : clean = true → s.diagnostics = []) (next : Faces clean s.next ws) :
      Faces clean s (w :: ws)

variable {clean : Bool} {s : Scanner} {ws : List Word}

theorem Faces.token (h : s.Faces clean ws) : s.token.Is (ws.head?.getD .ending) := by
  cases h with
  | ending token => exact token
  | word token => exact token

theorem Faces.noted (h : s.Faces clean ws) : clean = true → s.diagnostics = [] := by
  cases h with
  | ending _ _ noted => exact noted
  | word _ noted => exact noted

/-- At the end of the text the next token is the end again. -/
theorem faces_end (rest : s.rest = []) (noted : clean = true → s.diagnostics = []) :
    s.next.Faces clean [] := by
  rw [next_of_end (n := 0) (by rw [rest]; rfl) (by rw [rest]; rfl)]
  exact .ending ⟨rfl, rfl, rfl, rfl⟩ rfl noted

theorem Faces.next (h : s.Faces clean ws) : s.next.Faces clean ws.tail := by
  cases h with
  | ending _ rest noted => exact faces_end rest noted
  | word _ _ next => exact next

/-- Whatever text it stands in, the tokens from the current one on are some words. -/
theorem exists_faces (s : Scanner) : ∃ ws, s.Faces false (s.token.word :: ws) := by
  suffices h : ∀ n, ∀ s : Scanner, s.rest.length = n → ∃ ws, s.Faces false (s.token.word :: ws) from
    h _ s rfl
  intro n
  induction n using Nat.strongRecOn with
  | ind n ih =>
    intro s length
    have go (ws : List Word) (h : s.next.Faces false ws) :
        ∃ ws, s.Faces false (s.token.word :: ws) :=
      ⟨ws, .word s.token.is_word nofun h⟩
    rcases Nat.eq_zero_or_pos n with rfl | pos
    · exact go [] (faces_end (List.length_eq_zero_iff.1 length) nofun)
    · have lt : s.next.rest.length < n := by
        have le := s.ahead_length_le
        cases hahead : s.ahead with
        | nil =>
          obtain ⟨before, flags, -, hnext⟩ := next_of_ahead_nil hahead
          simpa [hnext] using pos
        | cons c cs =>
          obtain ⟨before, flags, -, hnext⟩ := next_of_ahead_cons hahead
          have size_pos := (Lexeme.ofChars_fits c cs).size_pos
          rw [hahead] at le
          simp only [hnext, take_rest, List.length_drop, List.length_cons] at le ⊢
          omega
      obtain ⟨ws, h⟩ := ih _ lt s.next rfl
      exact go _ h

end Scanner

namespace Spells

variable {clean : Bool} {s : Scanner} {tail : List Char} {ws : List Word}

/-- The next tokens are the words that are spelled behind the current one and then what is found
behind them. -/
theorem faces_more {P : List Word → Prop} (h : Spells tail s.rest ws)
    (noted : clean = true → s.diagnostics = [])
    (behind : ∀ (t : Scanner) (n : Nat), t.rest = List.replicate n ' ' ++ tail →
      (clean = true → t.diagnostics = []) → ∃ more, P more ∧ t.next.Faces clean more) :
    ∃ more, P more ∧ s.next.Faces clean (ws ++ more) := by
  induction ws generalizing s with
  | nil =>
    obtain ⟨n, rest⟩ := h.front_nil
    exact behind s n rest noted
  | cons w ws ih =>
    obtain ⟨n, ds, trivia, front, ⟨⟨c, cs, text, lexeme⟩, -⟩, rest⟩ := h.front (s.token.stop == 0)
    have next := Scanner.next_of_trivia trivia (front.trans text)
    have rest : Spells tail s.next.rest ws := by
      rw [next, lexeme, ← text]
      show Spells tail ((w.source ++ ds).drop w.source.length) ws
      rwa [List.drop_left]
    have noted' : clean = true → s.next.diagnostics = [] := by
      rw [next, lexeme]
      exact noted
    obtain ⟨more, found, faces⟩ := ih rest noted'
    refine ⟨more, found, .word ?_ noted' faces⟩
    rw [next, lexeme]
    exact ⟨rfl, String.ofList_toList, Bool.false_or _, Bool.or_false _⟩

/-- The next tokens are the words that are spelled behind the current one. -/
theorem faces (h : Spells [] s.rest ws) (noted : clean = true → s.diagnostics = []) :
    s.next.Faces clean ws := by
  obtain ⟨more, rfl, faces⟩ := h.faces_more (P := (· = [])) noted fun t n rest noted => by
    rw [List.append_nil] at rest
    have next := Scanner.next_of_end (n := n) (by rw [rest, ofChars_blanks]) (by simp [rest])
    refine ⟨[], rfl, ?_⟩
    rw [next]
    exact .ending ⟨rfl, rfl, rfl, rfl⟩ rfl noted
  rwa [List.append_nil] at faces

end Spells

end FactorySync
