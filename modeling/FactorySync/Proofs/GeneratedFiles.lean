import FactorySync.Proofs.LiteralEntries
import FactorySync.Proofs.PrintedImports

/-!
# Files as runs leave them

A `GeneratedFile` is a target file that is laid out as runs lay it out: imports, each on a line of
its own, and the constant, whose literal holds entries on lines of their own, some of them factories
and some written by hand. Its text (`GeneratedFile.text`) is a row of words, so it is known what is
read from it and at which offsets it stands (`GeneratedFile.Proper.read`).
-/

namespace FactorySync

open Parse

/-- A number of line breaks, one after the other. -/
def NewLine.repeated (n : NewLine) (count : Nat) : List Char := (List.replicate count n.text).flatten

/-- What a run needs of its settings to read back what it writes. -/
structure Config.Printable (c : Config) : Prop extends c.Plain where
  targetConst : IsName c.targetConst
  indent : ∀ a ∈ c.indent.toList, CharClass.isBlank a = true

/-- What stands between the braces of the constant. -/
inductive LiteralBody where
  /-- Nothing at all. -/
  | bare
  /-- Members on lines of their own, with the closing brace on a line behind them. -/
  | members (entries : List Entry)

namespace LiteralBody

/-- The members. -/
def entries : LiteralBody → List Entry
  | bare => []
  | members entries => entries

/-- What stands between the last member and the closing brace. -/
def lastBreak (n : NewLine) : LiteralBody → List Char
  | bare => []
  | members _ => n.text

/-- The closing brace. -/
def closing : LiteralBody → Word
  | bare => .mark .closeBrace '\x7d'
  | members _ => (Word.mark .closeBrace '\x7d').onNewLine

end LiteralBody

/-- A target file that is laid out as runs leave it. -/
structure GeneratedFile where
  imports : List (QuoteMark × Import) := []
  /-- The number of line breaks between the imports and the constant, beside that of the last
  import. -/
  gap : Nat := 0
  body : LiteralBody := .bare
  newLine : NewLine := .lf
  /-- The number of line breaks at the end. -/
  ending : Nat := 1

/-- Where the import is printed it can be read back. -/
structure Import.Readable (i : Import) : Prop where
  proper : i.Proper
  binds : i.bindsNothing = false
  oneLine : OneLine i.specifier.toList

namespace GeneratedFile

/-! ## The text -/

/-- Imports, each with a line break behind it. -/
def importLines (newLine : List Char) (imports : List (QuoteMark × Import)) : List Char :=
  imports.flatMap fun i => i.2.text i.1 ++ newLine

/-- The constant up to the literal. -/
def head (c : Config) : List Char :=
  "export ".toList ++ ("const ".toList ++ (c.targetConst.toList ++ " =".toList))

/-- Members one behind the other, each on lines of its own. -/
def entriesText (n : NewLine) (entries : List Entry) : List Char :=
  entries.flatMap fun e => n.text ++ e.lines

def literalText (g : GeneratedFile) : List Char :=
  '\x7b' :: (entriesText g.newLine g.body.entries ++ (g.body.lastBreak g.newLine ++ ['\x7d']))

/-- The text from the literal on. -/
def tailText (g : GeneratedFile) : List Char :=
  g.literalText ++ (" as const;".toList ++ g.newLine.repeated g.ending)

def text (c : Config) (g : GeneratedFile) : List Char :=
  importLines g.newLine.text g.imports ++
    (g.newLine.repeated g.gap ++ (head c ++ ' ' :: g.tailText))

/-- The imports and the members can be read back. A file that ends its lines with a carriage return
has at least one line that ends. -/
structure Proper (g : GeneratedFile) : Prop where
  imports : ∀ i ∈ g.imports, i.2.Readable
  entries : ∀ e ∈ g.body.entries, e.Readable
  breaks : g.newLine = .lf ∨ 0 < g.ending

/-! ## What is read -/

/-- The node is the import, which starts at the offset. -/
structure ImportAt (pos : Nat) (i : QuoteMark × Import) (n : Node) : Prop where
  kind : n.kind = .importDeclaration
  same : Import.ofNode n = i.2
  quote : Import.quoteOf n = i.1
  clause : (n.child? .importClause).isSome = true
  span : n.span = ⟨pos, pos + byteLength (i.2.text i.1)⟩

/-- What is read of imports, each on a line of its own, the first of which starts at the offset. -/
def importsAt (newLine : List Char) : Nat → List (QuoteMark × Import) → List (Node → Prop)
  | _, [] => []
  | pos, i :: imports =>
    ImportAt pos i ::
      importsAt newLine (pos + byteLength (i.2.text i.1 ++ newLine)) imports

/-- The members are the entries, one behind the other from the offset on, each with a comma. -/
inductive EntriesAt (newLine : NewLine) : Nat → List Entry → List (Node × Option Nat) → Prop
  | nil {pos : Nat} : EntriesAt newLine pos [] []
  | cons {pos : Nat} {e : Entry} {entries : List Entry} {n : Node} {ms : List (Node × Option Nat)}
      (outline : n.outline = e.tree.outline.inRole .properties)
      (start : n.span.start = pos + byteLength (newLine.text ++ e.lead))
      (others : EntriesAt newLine (pos + byteLength (newLine.text ++ e.lines)) entries ms) :
      EntriesAt newLine pos (e :: entries)
        ((n, some (pos + byteLength (newLine.text ++ e.lines))) :: ms)

/-- A literal with these members, each with the end of the comma behind it. -/
def literalNode (span : Span) (flags : NodeFlags) (members : List (Node × Option Nat)) : Node :=
  { kind := .objectLiteralExpression, span, flags
    detail := .separators (members.map (·.2))
    children := members.map (·.1) }

/-- The node is the literal, which starts at the offset. -/
def LiteralAt (g : GeneratedFile) (pos : Nat) (n : Node) : Prop :=
  ∃ flags members, EntriesAt g.newLine (pos + 1) g.body.entries members ∧
    n = literalNode (.ofLength pos (byteLength g.literalText)) flags members

/-- What stands in front of the literal. -/
def literalFront (c : Config) (g : GeneratedFile) : List Char :=
  importLines g.newLine.text g.imports ++ (g.newLine.repeated g.gap ++ (head c ++ [' ']))

end GeneratedFile

/-! ## Gaps in front of words -/

namespace Trivia

theorem Passes.repeated (n : NewLine) (count : Nat) :
    Passes (n.repeated count) (decide (0 < count)) := by
  induction count with
  | zero => exact .nil
  | succ count ih =>
    rw [NewLine.repeated, List.replicate_succ, List.flatten_cons, ← NewLine.repeated]
    exact (Passes.newLine n).append ih

/-- The text is trivia, and nothing at all if there is no line break in it. -/
structure Gap (gap : List Char) (lineBreak : Bool) : Prop where
  passes : Passes gap lineBreak
  empty : lineBreak = false → gap = []

namespace Gap

variable {gap more : List Char} {a b : Bool}

theorem nil : Gap [] false := ⟨.nil, fun _ => rfl⟩

theorem newLine (n : NewLine) : Gap n.text true := ⟨.newLine n, nofun⟩

theorem repeated (n : NewLine) (count : Nat) : Gap (n.repeated count) (decide (0 < count)) := by
  refine ⟨.repeated n count, fun none => ?_⟩
  obtain rfl : count = 0 := by simpa using none
  rfl

theorem append (h : Gap gap a) (h' : Gap more b) : Gap (gap ++ more) (a || b) := by
  refine ⟨h.passes.append h'.passes, fun none => ?_⟩
  rw [Bool.or_eq_false_iff] at none
  rw [h.empty none.1, h'.empty none.2, List.append_nil]

end Gap
end Trivia

open Trivia (Gap)

variable {tail cs gap : List Char} {ws : List Word} {w : Word} {b : Bool}

/-- A gap in front of a row only tells whether its first word starts a line. -/
theorem Spells.behindGap (h : Spells tail cs (w :: ws)) (sameLine : w.startsLine = false)
    (isGap : Gap gap b) : Spells tail (gap ++ cs) ({ w with startsLine := b } :: ws) := by
  cases b with
  | true => exact h.onNewLine isGap.passes
  | false =>
    rw [isGap.empty rfl, ← sameLine]
    exact h

namespace GeneratedFile

variable {c : Config} {g : GeneratedFile}

/-! ## The words -/

/-- The word that an import begins with. -/
def importWord (startsLine : Bool) : Word := { Word.keyword .importKeyword with startsLine }

/-- Imports, the first of which may start a line. -/
def importWords (startsLine : Bool) : List (QuoteMark × Import) → List Word
  | [] => []
  | i :: imports =>
    importWord startsLine :: (i.2.behindWords i.1 ++ importWords true imports)

def literalWords (g : GeneratedFile) : List Word :=
  .mark .openBrace '\x7b' :: (Word.commaEnded Entry.words g.body.entries ++ [g.body.closing])

open FactorySync.Parser
open Spells (Cut)

/-! ## The imports are read -/

section Imports

variable {newLine : List Char} {imports : List (QuoteMark × Import)} {text front : List Char}
  {words pre pre' rest : List Word} {i : QuoteMark × Import}

/-- The gap in front of an import and its text spell its words. -/
theorem import_spells (readable : i.2.Readable) (isGap : Gap gap b) :
    Spells tail ((gap ++ i.2.text i.1) ++ tail)
      (importWord b :: i.2.behindWords i.1) := by
  obtain ⟨proper, binds, line⟩ := readable
  have nothing : Spells tail tail [] := .done
  have row := Import.spells (q := i.1) proper binds line nothing
  rw [List.append_nil] at row
  rw [List.append_assoc]
  exact row.behindGap rfl isGap

theorem import_getLast? (gap : List Char) (i : QuoteMark × Import) :
    (gap ++ i.2.text i.1).getLast? = some ';' := by
  obtain ⟨most, text⟩ : ∃ most, i.2.text i.1 = most ++ [';'] := ⟨_, rfl⟩
  rw [text, ← List.append_assoc, List.getLast?_concat]

/-- Between the readings in front of an import and behind it stands the text of the import. -/
theorem importAt_of_cut {path : String} {n : Node} (some : rest ≠ []) (isGap : Gap gap b)
    (binds : i.2.bindsNothing = false)
    (before : Cut text words front (gap ++ (i.2.text i.1 ++ tail)) pre
      (importWord b :: (i.2.behindWords i.1 ++ rest)))
    (behind : Cut text words (front ++ (gap ++ i.2.text i.1)) tail pre' rest)
    (h : ReadsImport (.ofFile (firstReading path text) words.length)
      (importWord b :: (i.2.behindWords i.1 ++ rest)) rest i.1 i.2 n) :
    ImportAt (byteLength (front ++ gap)) i n := by
  obtain ⟨kind, same, quote, clause, r, s, start, stop, span⟩ := h
  obtain ⟨cs, startsWith⟩ : ∃ cs, i.2.text i.1 = (importWord b).source ++ ' ' :: cs :=
    ⟨_, Import.text_eq binds⟩
  have spelled : (Word.keyword .importKeyword).Before (' ' :: (cs ++ tail)) :=
    Word.before_keyword (by decide) (Word.endsName_cons (by decide))
  rw [startsWith, List.append_assoc, List.cons_append] at before
  refine ⟨kind, same, quote, clause, ?_⟩
  rw [span, before.here_eq start (List.cons_ne_nil _ _) isGap.passes spelled.trivia,
    behind.lastEnd_eq stop some, ← List.append_assoc, byteLength_append (front ++ gap)]

/-- The imports are read one after the other. Then the gap behind the last one is left, and there is
a line break in it. -/
theorem imports_rows (path : String) {n : NewLine}
    (readable : ∀ i ∈ imports, i.2.Readable) (isGap : Gap gap b) (some : rest ≠ [])
    (cut : Cut text words front (gap ++ (importLines n.text imports ++ tail)) pre
      (importWords b imports ++ rest)) :
    ∃ front' gap' pre', front' ++ gap' = front ++ gap ++ importLines n.text imports ∧
      Gap gap' (b || !imports.isEmpty) ∧ Cut text words front' (gap' ++ tail) pre' rest ∧
      ∀ last Ps, StatementRows (.ofFile (firstReading path text) words.length) last rest Ps →
        StatementRows (.ofFile (firstReading path text) words.length) last
          (importWords b imports ++ rest)
          (importsAt n.text (byteLength (front ++ gap)) imports ++ Ps) := by
  induction imports generalizing gap b front pre with
  | nil =>
    refine ⟨front, gap, pre, (List.append_nil _).symm, ?_, cut, fun last Ps rows => rows⟩
    rwa [List.isEmpty_nil, Bool.not_true, Bool.or_false]
  | cons i imports ih =>
    obtain ⟨first, others⟩ := List.forall_mem_cons.1 readable
    have lines : importLines n.text (i :: imports) ++ tail =
        i.2.text i.1 ++ (n.text ++ (importLines n.text imports ++ tail)) := by
      simp [importLines]
    have row : importWords b (i :: imports) ++ rest =
        importWord b :: (i.2.behindWords i.1 ++ (importWords true imports ++ rest)) := by
      simp [importWords]
    rw [lines, row] at cut
    have behind : Cut text words (front ++ (gap ++ i.2.text i.1))
        (n.text ++ (importLines n.text imports ++ tail))
        (pre ++ importWord b :: i.2.behindWords i.1) (importWords true imports ++ rest) :=
      .moveOn (by rwa [List.append_assoc]) (import_spells first isGap)
        (by rw [import_getLast?]; decide) fun empty => by
          have last := import_getLast? gap i
          rw [empty] at last
          cases last
    have more : importWords true imports ++ rest ≠ [] := List.append_ne_nil_of_right_ne_nil _ some
    obtain ⟨front', gap', pre', fronts, isGap', cut', rows⟩ := ih others (.newLine n) behind
    refine ⟨front', gap', pre', ?_, ?_, cut', fun last Ps others => ?_⟩
    · rw [fronts]
      simp [importLines]
    · simpa using isGap'
    · rw [row]
      refine .advancing rfl rfl ((importStatement_readsRow first.proper first.binds rfl).mono fun n h =>
        importAt_of_cut more isGap first.binds cut behind h) ?_
      have next := rows last Ps others
      rw [← List.append_assoc front gap, List.append_assoc (front ++ gap)] at next
      rwa [byteLength_append (front ++ gap)] at next

end Imports

/-! ## The constant is read -/

/-- The word that the constant begins with. -/
def exportWord (startsLine : Bool) : Word := { Word.keyword .exportKeyword with startsLine }

section Constant

variable {text front : List Char} {words pre pre' rest : List Word} {n : NewLine}
  {entries : List Entry}

theorem head_spells (isName : IsName c.targetConst) (isGap : Gap gap b) (cs : List Char) :
    Spells (' ' :: cs) ((gap ++ head c) ++ ' ' :: cs)
      [exportWord b, .keyword .constKeyword, .name c.targetConst, .mark .equals '='] := by
  have equals : Spells (' ' :: cs) ('=' :: ' ' :: cs) [.mark .equals '='] :=
    Spells.word (w := .mark .equals '=') rfl (Word.before_blank (by decide)) .done
  have name := (equals.blank.name isName.word (Word.endsName_cons (by decide))).keyword
    (k := .constKeyword) (by decide)
  have row := (name.keyword (k := .exportKeyword) (by decide)).behindGap rfl isGap
  unfold head
  simp only [List.append_assoc]
  exact row

/-- An entry is passed over. -/
theorem entry_cut {e : Entry} (readable : e.Readable)
    (cut : Cut text words front ((n.text ++ e.lines) ++ tail) pre
      (e.words ++ .mark .comma ',' :: rest)) :
    Cut text words (front ++ (n.text ++ e.lines)) tail
      (pre ++ (e.words ++ [.mark .comma ','])) rest := by
  have last := e.lines_getLast? n.text
  refine .moveOn (by rwa [List.append_assoc e.words]) (readable.lines_spell n .done)
    (by rw [last]; decide) fun empty => ?_
  rw [empty] at last
  cases last

theorem entries_cut (readable : ∀ e ∈ entries, e.Readable)
    (cut : Cut text words front (entriesText n entries ++ tail)
      pre (Word.commaEnded Entry.words entries ++ rest)) :
    ∃ pre', Cut text words (front ++ entriesText n entries) tail pre' rest := by
  induction entries generalizing front pre with
  | nil => exact ⟨pre, by simpa [Word.commaEnded, entriesText] using cut⟩
  | cons e entries ih =>
    obtain ⟨first, others⟩ := List.forall_mem_cons.1 readable
    rw [entriesText, List.flatMap_cons, List.append_assoc, Word.commaEnded_cons] at cut
    rw [entriesText, List.flatMap_cons, ← List.append_assoc]
    exact ih others (entry_cut first cut)

/-- The member is the entry, wherever it stands. -/
def IsEntry (e : Entry) (n : Node) : Prop := n.outline = e.tree.outline

/-- Between the readings in front of entries and behind them stand their texts. -/
theorem entriesAt_of_cut {path : String} {context : Context} {ms : List (Node × Option Nat)}
    (readable : ∀ e ∈ entries, e.Readable) (some : rest ≠ [])
    (places : context.known = (Context.ofFile (firstReading path text) words.length).known)
    (cut : Cut text words front (entriesText n entries ++ tail)
      pre (Word.commaEnded Entry.words entries ++ rest))
    (h : ReadsItems context Entry.words IsEntry rest entries ms) :
    EntriesAt n (byteLength front) entries ms := by
  induction entries generalizing front pre ms with
  | nil =>
    cases h
    exact .nil
  | cons e entries ih =>
    obtain ⟨first, others⟩ := List.forall_mem_cons.1 readable
    obtain _ | @⟨_, _, m, ms, before, behind, same, start, starts, stop, more⟩ := h
    have ahead (es : List Entry) : Word.commaEnded Entry.words es ++ rest ≠ [] :=
      List.append_ne_nil_of_right_ne_nil _ some
    rw [entriesText, List.flatMap_cons, List.append_assoc] at cut
    rw [places] at start stop
    have next := cut
    rw [Word.commaEnded_cons] at next
    have next := entry_cut first next
    have stops := next.lastEnd_eq stop (ahead entries)
    rw [byteLength_append] at stops
    have lines : n.text ++ e.lines ++ (entriesText n entries ++ tail) =
        (n.text ++ e.lead) ++ (e.code ++ (',' :: (entriesText n entries ++ tail))) := by
      simp [Entry.lines]
    have place : Cut text words front ((n.text ++ e.lead) ++
        (e.code ++ (',' :: (entriesText n entries ++ tail)))) pre _ := lines ▸ cut
    have begins := place.here_eq start (ahead (e :: entries)) (first.gap n) (first.begins _)
    rw [byteLength_append, ← starts] at begins
    rw [stops]
    refine .cons ?_ (by rw [← begins]; rfl) ?_
    · rw [Node.outline_inRole, show m.outline = _ from same]
    · rw [← byteLength_append]
      exact ih others next more

theorem closing_spells (body : LiteralBody) (n : NewLine) (cs : List Char) :
    Spells cs ((body.lastBreak n ++ ['\x7d']) ++ cs) [body.closing] := by
  have brace : Spells cs ('\x7d' :: cs) [.mark .closeBrace '\x7d'] := .mark .done (by decide)
  rw [List.append_assoc]
  cases body with
  | bare => exact brace
  | members entries => exact brace.onNewLine (.newLine n)

theorem asserted_spells (cs : List Char) : Spells cs (" as const;".toList ++ cs)
    [.keyword .asKeyword, .keyword .constKeyword, .mark .semicolon ';'] := by
  have ends : Spells cs (';' :: cs) [.mark .semicolon ';'] := .mark .done (by decide)
  have type := ends.wholeKeyword (k := .constKeyword) (by decide) (Word.endsName_cons (by decide))
  exact (type.keyword (k := .asKeyword) (by decide)).blank

theorem closing_kind (body : LiteralBody) : body.closing.kind = .closeBrace := by
  cases body <;> rfl

theorem openBrace_spells (cs : List Char) :
    Spells cs ([' ', '\x7b'] ++ cs) [.mark .openBrace '\x7b'] :=
  (Spells.mark .done (by decide)).blank

/-- The literal is passed over. Inside, a cut stands in front of the members. -/
theorem literal_cuts (readable : ∀ e ∈ g.body.entries, e.Readable)
    (cut : Cut text words front (' ' :: (g.literalText ++ tail)) pre (g.literalWords ++ rest)) :
    Cut text words (front ++ [' ', '\x7b']) (entriesText g.newLine g.body.entries ++
        (g.body.lastBreak g.newLine ++ '\x7d' :: tail)) (pre ++ [.mark .openBrace '\x7b'])
      (Word.commaEnded Entry.words g.body.entries ++ g.body.closing :: rest) ∧
    ∃ pre', Cut text words (front ++ ' ' :: g.literalText) tail pre' rest := by
  have opened : Cut text words (front ++ [' ', '\x7b'])
      (entriesText g.newLine g.body.entries ++
        (g.body.lastBreak g.newLine ++ '\x7d' :: tail)) (pre ++ [.mark .openBrace '\x7b'])
      (Word.commaEnded Entry.words g.body.entries ++ g.body.closing :: rest) :=
    .moveOn (by simpa [literalText, literalWords] using cut) (openBrace_spells _) (by decide)
      (by decide)
  obtain ⟨pre', filled⟩ := entries_cut readable opened
  have closed : Cut text words (front ++ [' ', '\x7b'] ++
      entriesText g.newLine g.body.entries ++ (g.body.lastBreak g.newLine ++ ['\x7d']))
      tail (pre' ++ [g.body.closing]) rest :=
    .moveOn (by simpa using filled) (closing_spells _ _ _) (by simp) (by simp)
  exact ⟨opened, _, by simpa [literalText] using closed⟩

/-- The literal is read from its words. -/
theorem literal_readsRow {path : String} {context : Context}
    (readable : ∀ e ∈ g.body.entries, e.Readable) (some : rest ≠ [])
    (clean : context.clean = true) (room : context.Room Entry.room)
    (places : context.known = (Context.ofFile (firstReading path text) words.length).known)
    (cut : Cut text words front (' ' :: (g.literalText ++ tail)) pre (g.literalWords ++ rest)) :
    objectLiteral.ReadsRow context (g.literalWords ++ rest) rest
      (g.LiteralAt (byteLength (front ++ [' ']))) := by
  obtain ⟨opened, pre', closed⟩ := literal_cuts readable cut
  have row : g.literalWords ++ rest = .mark .openBrace '\x7b' ::
      (Word.commaEnded Entry.words g.body.entries ++ g.body.closing :: rest) := by
    simp [literalWords]
  have members : objectMembers.ReadsRow context
      (Word.commaEnded Entry.words g.body.entries ++ g.body.closing :: rest)
      (g.body.closing :: rest) (ReadsItems context Entry.words IsEntry
        (g.body.closing :: rest) g.body.entries) :=
    objectMembers_readsRow clean (fun e he ws =>
      ⟨(readable e he).first.1, (readable e he).reads ws clean room⟩) (closing_kind g.body)
  rw [row] at cut ⊢
  refine (objectLiteral_readsRow rfl (closing_kind g.body) members).mono ?_
  rintro _ ⟨ms, r, s, flags, items, start, stop, rfl⟩
  have entries := entriesAt_of_cut readable (List.cons_ne_nil _ _) places opened items
  rw [places] at start stop
  have brace : Cut text words front
      ([' '] ++ ((Word.mark .openBrace '\x7b').source ++ _)) pre _ := cut
  have opens : r.here = byteLength (front ++ [' ']) :=
    brace.here_eq start (List.cons_ne_nil _ _) (.char rfl)
      (Word.before_alone (k := .openBrace) (c := '\x7b') (by decide)).trivia
  have closes := closed.lastEnd_eq stop some
  rw [List.append_cons, byteLength_append] at closes
  have inside : byteLength (front ++ [' ', '\x7b']) = byteLength (front ++ [' ']) + 1 := by
    rw [List.append_cons, byteLength_append]
    rfl
  rw [inside] at entries
  refine ⟨flags, ms, entries, ?_⟩
  rw [literalNode, Span.ofLength, opens, closes]

theorem head_getLast? (gap : List Char) (c : Config) : (gap ++ head c).getLast? = some '=' := by
  obtain ⟨most, text⟩ : ∃ most, head c = most ++ ['='] :=
    ⟨"export ".toList ++ ("const ".toList ++ (c.targetConst.toList ++ [' '])), by
      unfold head
      simp only [List.append_assoc]
      rfl⟩
  rw [text, ← List.append_assoc, List.getLast?_concat]

/-- A literal does not begin like an arrow function. -/
theorem literal_noArrow (readable : ∀ e ∈ g.body.entries, e.Readable) (rest : List Word) :
    (Word.first (assertedWords g.literalWords rest).tail).kind ≠ .equalsGreaterThan := by
  rw [assertedWords, literalWords, List.cons_append, List.tail_cons]
  cases entries : g.body.entries with
  | nil =>
    show g.body.closing.kind ≠ _
    rw [closing_kind]
    decide
  | cons e others => exact (readable e (entries ▸ List.mem_cons_self)).first.2

/-- The statement is read from its words, and it is passed over. -/
theorem constant_row (path : String) (printable : c.Printable)
    (readable : ∀ e ∈ g.body.entries, e.Readable) (isGap : Gap gap b)
    (cut : Cut text words front (gap ++ (head c ++ ' ' :: (g.literalText ++
        (" as const;".toList ++ tail)))) pre
      (exportWords (exportWord b) c.targetConst g.literalWords rest)) :
    (∃ front' pre', Cut text words front' tail pre' rest) ∧
      statement.ReadsRow (.ofFile (firstReading path text) words.length)
        (exportWords (exportWord b) c.targetConst g.literalWords rest) rest
        (ExportsLiteral c.targetConst
          (g.LiteralAt (byteLength (front ++ gap ++ (head c ++ [' ']))))) := by
  have headed : Cut text words (front ++ (gap ++ head c)) (' ' :: (g.literalText ++
        (" as const;".toList ++ tail))) _ (assertedWords g.literalWords rest) :=
    .moveOn (by rwa [List.append_assoc]) (head_spells printable.targetConst isGap _)
      (by rw [head_getLast?]; decide) fun empty => by
        have last := head_getLast? gap c
        rw [empty] at last
        cases last
  obtain ⟨-, pre', closed⟩ := literal_cuts readable headed
  have passed : Cut text words _ tail _ rest :=
    .moveOn closed (asserted_spells _) (by decide) (by decide)
  refine ⟨⟨_, _, passed⟩, constantStatement_readsRow printable.targetConst rfl rfl
    (literal_noArrow readable rest) (Context.ofFile_room (by decide)) ?_⟩
  refine ReadsRow.mono (literal_readsRow readable (List.cons_ne_nil _ _) rfl
    (Context.ofFile_room (n := Entry.room + 1) (by decide)).nested rfl headed) fun n h => ?_
  simpa only [List.append_assoc] using h

end Constant

/-! ## The file is read -/

/-- A file with this text was read. -/
structure Read (c : Config) (g : GeneratedFile) (f : SourceFile) : Prop where
  text : f.text = g.text c
  notes : f.notes = []
  imports : List.Forall₂ (fun P n => P n) (importsAt g.newLine.text 0 g.imports) f.imports
  constant : ∃ n, f.statements = f.imports ++ [n] ∧
    ExportsLiteral c.targetConst (g.LiteralAt (byteLength (g.literalFront c))) n

theorem ImportAt.inRole {pos : Nat} {i : QuoteMark × Import} {n : Node} (h : ImportAt pos i n)
    (role : Role) : ImportAt pos i (n.inRole role) := by
  cases n
  exact ⟨h.kind, h.same, h.quote, h.clause, h.span⟩

theorem forall₂_concat {α β : Type} {R : α → β → Prop} {as : List α} {a : α} {bs : List β}
    (h : List.Forall₂ R (as ++ [a]) bs) : ∃ front b, bs = front ++ [b] ∧ List.Forall₂ R as front ∧ R a b := by
  have back := List.forall₂_reverse_iff.2 h
  rw [List.reverse_concat, List.forall₂_cons_left_iff] at back
  obtain ⟨b, front, hb, all, same⟩ := back
  refine ⟨front.reverse, b, ?_, ?_, hb⟩
  · rw [← List.reverse_reverse bs, same, List.reverse_cons]
  · rw [← List.forall₂_reverse_iff, List.reverse_reverse]
    exact all

theorem importsAt_inRole {newLine : List Char} {pos : Nat} {imports : List (QuoteMark × Import)}
    {ns : List Node} (h : List.Forall₂ (fun P n => P n) (importsAt newLine pos imports) ns) :
    List.Forall₂ (fun P n => P n) (importsAt newLine pos imports)
      (ns.map (·.inRole .statements)) := by
  induction imports generalizing pos ns with
  | nil =>
    cases h
    exact .nil
  | cons i imports ih =>
    obtain ⟨n, ns, first, others, rfl⟩ := List.forall₂_cons_left_iff.1 h
    have here : ImportAt pos i n := first
    exact .cons (here.inRole _) (ih others)

theorem importsAt_kind {newLine : List Char} {pos : Nat} {imports : List (QuoteMark × Import)}
    {ns : List Node} (h : List.Forall₂ (fun P n => P n) (importsAt newLine pos imports) ns) :
    ∀ n ∈ ns, n.kind = .importDeclaration := by
  induction imports generalizing pos ns with
  | nil =>
    cases h
    exact List.forall_mem_nil _
  | cons i imports ih =>
    obtain ⟨n, ns, first, others, rfl⟩ := List.forall₂_cons_left_iff.1 h
    have here : ImportAt pos i n := first
    exact List.forall_mem_cons.2 ⟨here.kind, ih others⟩

/-- The text is read without errors as what it stands for. -/
theorem Proper.read (proper : g.Proper) (printable : c.Printable) (path : String) :
    g.Read c (.parse path (g.text c)) := by
  let starts := (false || !g.imports.isEmpty) || decide (0 < g.gap)
  let last : List Word := [.fileEnd (decide (0 < g.ending))]
  let words := importWords false g.imports ++
    exportWords (exportWord starts) c.targetConst g.literalWords last
  have someExport : exportWords (exportWord starts) c.targetConst g.literalWords last ≠ [] :=
    List.cons_ne_nil _ _
  obtain ⟨front, gap, pre, fronts, isGap, behind, imports⟩ :=
    imports_rows path proper.imports .nil someExport (Cut.start (g.text c) words)
  have behind : Cut (g.text c) words front ((gap ++ g.newLine.repeated g.gap) ++ (head c ++
      ' ' :: (g.literalText ++ (" as const;".toList ++ g.newLine.repeated g.ending)))) pre
      (exportWords (exportWord starts) c.targetConst g.literalWords last) := by
    rw [List.append_assoc]
    exact behind
  obtain ⟨⟨front', pre', passed⟩, constant⟩ :=
    constant_row path printable proper.entries (isGap.append (.repeated g.newLine g.gap)) behind
  have place : front ++ (gap ++ g.newLine.repeated g.gap) ++ (head c ++ [' ']) = g.literalFront c := by
    rw [← List.append_assoc front, fronts, literalFront]
    simp only [List.nil_append, List.append_assoc]
  rw [place] at constant
  have rows := imports last _ (.advancing rfl rfl constant .done)
  have spells := passed.spells
  have text := passed.text_eq
  have same : words = pre' ++ last := passed.words_eq
  rw [← text] at spells
  rw [show importWords false g.imports ++ exportWords (exportWord starts) c.targetConst
    g.literalWords last = words from rfl, same] at rows
  obtain ⟨notes, ns, statements, all⟩ := SourceFile.parse_rows path spells (.repeated _ _) rows
  obtain ⟨is, n, rfl, first, hn⟩ := forall₂_concat all
  rw [List.map_append, List.map_singleton] at statements
  have first := importsAt_inRole first
  obtain ⟨name, literal, type, value, declaration, list, whole, -, -, -, rfl⟩ := id hn
  have found : (SourceFile.parse path (g.text c)).imports = is.map (·.inRole .statements) := by
    rw [SourceFile.imports, statements, List.filter_append, List.filter_eq_self.2 fun n hn =>
      beq_iff_eq.2 (importsAt_kind first n hn), List.filter_cons_of_neg (by exact nofun),
      List.filter_nil, List.append_nil]
  exact ⟨SourceFile.parse_text path _, notes, found ▸ first, _, found ▸ statements, hn⟩

end GeneratedFile
end FactorySync
