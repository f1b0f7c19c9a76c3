import FactorySync.Proofs.Scanning
import FactorySync.Text.Quoted

/-!
# Quoted strings are read back

A string that is written with quote marks is one token again, with the string as its value, exactly
if there is no line feed and no carriage return in it (`QuoteMark.tokens_quoted_iff`). Those two are
written as they are, and a string ends in front of them.
-/

namespace FactorySync

/-- There is neither a line feed nor a carriage return among the characters. -/
def OneLine (cs : List Char) : Prop := ∀ c ∈ cs, c ≠ '\n' ∧ c ≠ '\r'

instance (cs : List Char) : Decidable (OneLine cs) :=
  decidable_of_iff (cs.all fun c => c != '\n' && c != '\r') (by simp [OneLine])

theorem oneLine_cons {c : Char} {cs : List Char} :
    OneLine (c :: cs) ↔ (c ≠ '\n' ∧ c ≠ '\r') ∧ OneLine cs := List.forall_mem_cons

theorem OneLine.append {cs ds : List Char} (h : OneLine cs) (h' : OneLine ds) : OneLine (cs ++ ds) :=
  List.forall_mem_append.2 ⟨h, h'⟩

namespace Scanner

variable {s : Scanner} {n : Nat}

/-- The next token, where all comments in front of it are closed. -/
theorem next_of_trivia {lineBreak : Bool} {c : Char} {cs : List Char}
    (trivia : Trivia.ofChars (s.token.stop == 0) s.rest = { size := n, lineBreak })
    (text : s.rest.drop n = c :: cs) :
    s.next = s.take (s.token.stop + byteLength (s.rest.take n)) { afterLineBreak := lineBreak }
      (.ofChars c cs) (c :: cs) := by
  simp only [next, trivia, text]

/-- The end of the text, where nothing but blanks stands in front of it. -/
theorem next_of_end (blanks : Trivia.ofChars (s.token.stop == 0) s.rest = { size := n })
    (text : s.rest.drop n = []) :
    s.next = s.take (s.token.stop + byteLength (s.rest.take n)) {} { kind := .endOfFile, size := 0 }
      [] := by
  simp only [next, blanks, text]

theorem tokens_head? (file : String) (text : List Char) :
    (tokens file text).1.head? = some (ofText file text).next.token := by
  simp only [tokens, collect, collect.go, id]
  split <;> rfl

end Scanner

namespace QuoteMark

variable {q : QuoteMark} {c : Char} {s rest : List Char}

open Lexeme

/-- What stands for itself behind a backslash. -/
theorem escape_special (h : c = q.char ∨ c = '\\') :
    escape (c :: rest) = { size := 1, value := [c] } := by
  obtain rfl | rfl := h
  · cases q <;> rfl
  · rfl

/-- Reading a string takes one character with its backslash, if it has one. -/
theorem stringBody_escaped_cons (line : c ≠ '\n' ∧ c ≠ '\r') :
    stringBody q.char 0 (q.escaped (c :: s) ++ rest) =
      { stringBody q.char 0 (q.escaped s ++ rest) with
        size := (stringBody q.char 0 (q.escaped s ++ rest)).size + (q.escaped [c]).length
        value := c :: (stringBody q.char 0 (q.escaped s ++ rest)).value } := by
  by_cases special : c = q.char ∨ c = '\\'
  · have backslash : '\\' ≠ q.char := by cases q <;> decide
    have skipped (cs : List Char) :
        stringBody q.char 1 (c :: cs) = (stringBody q.char 0 cs).after 1 := rfl
    rw [escaped, if_pos special, escaped, if_pos special, List.cons_append, List.cons_append,
      stringBody, if_neg backslash, if_pos rfl, escape_special special]
    dsimp only
    rw [skipped]
    simp [Body.after, Body.afterEscape, escaped]
  · have noBreak : (c = '\n' || c = '\r') = false := by simp [line]
    rw [not_or] at special
    rw [escaped, if_neg (not_or.2 special), escaped, if_neg (not_or.2 special), List.cons_append,
      stringBody, if_neg special.1, if_neg special.2, noBreak, if_neg Bool.false_ne_true]
    rfl

/-- Between its quote marks the string is read as it was written. -/
theorem stringBody_escaped (line : OneLine s) :
    stringBody q.char 0 (q.escaped s ++ q.char :: rest) =
      { size := (q.escaped s).length + 1, value := s, closed := true } := by
  induction s with
  | nil => simp [escaped, stringBody]
  | cons c s ih =>
    obtain ⟨noBreak, line⟩ := oneLine_cons.1 line
    have length : (q.escaped (c :: s)).length = (q.escaped s).length + (q.escaped [c]).length := by
      simp only [escaped]
      split <;> rfl
    rw [stringBody_escaped_cons noBreak, ih line, length, Nat.add_right_comm]

/-- A line feed or carriage return hides the closing quote mark. -/
theorem stringBody_broken (line : ¬ OneLine s) :
    (stringBody q.char 0 (q.escaped s ++ rest)).closed = false := by
  induction s with
  | nil => exact absurd (by simp [OneLine]) line
  | cons c s ih =>
    by_cases noBreak : c ≠ '\n' ∧ c ≠ '\r'
    · rw [stringBody_escaped_cons noBreak]
      exact ih fun rest => line (oneLine_cons.2 ⟨noBreak, rest⟩)
    · have isBreak : c = '\n' ∨ c = '\r' := by
        simpa [Decidable.or_iff_not_imp_left] using noBreak
      obtain rfl | rfl := isBreak <;> cases q <;> rfl

/-- What a quoted string at the front of a text is read as. -/
theorem string_quoted (line : OneLine s) :
    string q.char (q.escaped s ++ q.char :: rest) =
      { kind := .stringLiteral, size := (q.quoted s).length, value := s
        flags := { singleQuoted := q == .single } } := by
  simp only [string, stringBody_escaped line, quoted]
  cases q with
  | double => simp [QuoteMark.char]
  | single => simp [QuoteMark.char]

theorem quoted_append : q.quoted s ++ rest = q.char :: (q.escaped s ++ q.char :: rest) := by
  simp [quoted]

/-- A quote mark begins a string wherever a token may begin. -/
theorem ofChars_quote (cs : List Char) : ofChars q.char cs = string q.char cs := by
  cases q <;> rfl

/-- No trivia begins with a quote mark. -/
theorem ofChars_trivia (fileStart : Bool) (cs : List Char) :
    Trivia.ofChars fileStart (q.char :: cs) = {} := by
  cases q <;> rfl

/-- The token of a string in quote marks that is all there is. -/
def token (q : QuoteMark) (s : List Char) : Token where
  kind := .stringLiteral
  start := 0
  source := q.quoted s
  value := String.ofList s
  flags := { singleQuoted := q == .single }

theorem next_quoted (file : String) (q : QuoteMark) (s : List Char) :
    (Scanner.ofText file (q.quoted s)).next =
      (Scanner.ofText file (q.quoted s)).take 0 {} (string q.char (q.escaped s ++ [q.char]))
        (q.quoted s) := by
  rw [Scanner.next_of_trivia (n := 0) (ofChars_trivia _ _) rfl, ofChars_quote]
  rfl

/-- The end-of-file token behind a string in quote marks that is all there is. -/
def tokenBehind (q : QuoteMark) (s : List Char) : Token where
  kind := .endOfFile
  start := byteLength (q.quoted s)
  source := []
  value := ""
  flags := {}

theorem tokens_quoted {file : String} (line : OneLine s) :
    Scanner.tokens file (q.quoted s) = ([q.token s, q.tokenBehind s], []) := by
  have lexeme : string q.char (q.escaped s ++ [q.char]) = _ := string_quoted line
  have first : (Scanner.ofText file (q.quoted s)).next = { file, rest := [], token := q.token s } := by
    rw [next_quoted, lexeme]
    simp [Scanner.take, Scanner.note, Scanner.ofText, token, TokenFlags.union]
  have last : Scanner.next { file, rest := [], token := q.token s } =
      { file, rest := [], token := q.tokenBehind s } := by
    rw [Scanner.next_of_end (n := 0) rfl rfl]
    exact congrArg (Scanner.take · _ _ _ _) (Nat.zero_add _)
  have goesOn : (q.token s).kind ≠ .endOfFile := Kind.noConfusion
  obtain ⟨n, length⟩ : ∃ n, (q.quoted s).length = n + 1 := ⟨_, rfl⟩
  rw [Scanner.ofText] at first
  simp only [Scanner.tokens, Scanner.collect, Scanner.ofText, length, Scanner.collect.go, id]
  rw [first, if_neg goesOn, last]
  rfl

/-- A quoted string is scanned as one token that is what was quoted, with nothing behind it and
nothing to note, exactly if no line ends in the string. -/
theorem tokens_quoted_iff (file : String) (q : QuoteMark) (s : List Char) :
    Scanner.tokens file (q.quoted s) = ([q.token s, q.tokenBehind s], []) ↔ OneLine s := by
  refine ⟨fun tokens => Decidable.by_contra fun line => ?_, tokens_quoted⟩
  have closed : (stringBody q.char 0 (q.escaped s ++ [q.char])).closed = false :=
    stringBody_broken line
  have head := Scanner.tokens_head? file (q.quoted s)
  rw [tokens, next_quoted] at head
  have flags := congrArg (·.map (·.flags.unterminated)) head
  simp [token, Scanner.take, string, closed, TokenFlags.union] at flags

/-- A line feed is written as it is, and cuts the string in two that are not closed. -/
theorem lineFeed_cuts :
    Scanner.tokens "t.ts" (QuoteMark.double.quoted ['\n']) ≠
      ([QuoteMark.double.token ['\n'], QuoteMark.double.tokenBehind ['\n']], []) ∧
    (Scanner.tokens "t.ts" (QuoteMark.double.quoted ['\n'])).1.map
        (fun t => (t.kind, t.flags.unterminated)) =
      [(.stringLiteral, true), (.stringLiteral, true), (.endOfFile, false)] := by
  decide +kernel

end QuoteMark
end FactorySync
