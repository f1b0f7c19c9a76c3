import FactorySync.Literal.Insert
import FactorySync.Proofs.PrintedFactories
import FactorySync.Proofs.WordPlaces

/-!
# Printed factories are rows of words

A factory is put into a literal on lines of its own, behind a doc comment and with the indentation of
the other members. Apart from the gaps between its words, of which the doc comment is part, the text
is the row of words of a method (`FactoryTerm.factoryText_spells`), if no name that it is made of is
a keyword.
-/

namespace FactorySync

/-! ## Lines -/

section Lines

variable {line cs ds : List Char}

theorem oneLine_of_blank (blank : ∀ c ∈ cs, CharClass.isBlank c = true) : OneLine cs := by
  intro c hc
  have noBreak := CharClass.not_lineBreak_of_blank (blank c hc)
  constructor <;> rintro rfl <;> cases noBreak

theorem mem_of_mem_trim {c : Char} (h : c ∈ trim cs) : c ∈ cs := by
  have h := List.mem_reverse.1 h
  have h := (List.dropWhile_suffix _).mem h
  exact (List.dropWhile_suffix _).mem (List.mem_reverse.1 h)

theorem lines_cons (h : '\n' ∉ line) (cs : List Char) :
    lines (line ++ '\n' :: cs) = dropTrailingReturn line :: lines cs := by
  have pieces : (line ++ '\n' :: cs).splitOn '\n' = line :: cs.splitOn '\n' := by
    refine List.splitOnP_append_cons_of_forall_mem (fun c hc => ?_) '\n' rfl cs
    exact beq_false_of_ne fun same => h (same ▸ hc)
  obtain ⟨piece, pieces', more⟩ := List.exists_cons_of_ne_nil (List.splitOn_ne_nil '\n' cs)
  simp only [lines, pieces, more, List.dropLast_cons_cons, List.getLast?_cons_cons, List.map_cons]
  split <;> rfl

/-- A line that is broken as files break theirs. -/
theorem lines_newLine (h : OneLine line) (n : NewLine) (cs : List Char) :
    lines (line ++ (n.text ++ cs)) = line :: lines cs := by
  have noFeed : '\n' ∉ line := fun feed => (h _ feed).1 rfl
  cases n with
  | lf =>
    have noReturn : line.getLast? ≠ some '\r' := fun last =>
      (h _ (List.mem_of_getLast? last)).2 rfl
    exact (lines_cons noFeed cs).trans (congrArg (· :: _) (if_neg noReturn))
  | crlf =>
    have row : line ++ (NewLine.crlf.text ++ cs) = (line ++ ['\r']) ++ '\n' :: cs := by
      simp [NewLine.text]
    rw [row, lines_cons (by simpa using noFeed), dropTrailingReturn, if_pos (by simp),
      List.dropLast_concat]

theorem lines_last (h : OneLine line) (some : line ≠ []) : lines line = [line] := by
  have pieces : line.splitOn '\n' = [line] :=
    List.splitOn_eq_singleton fun feed => (h _ feed).1 rfl
  obtain ⟨c, line, rfl⟩ := List.exists_cons_of_ne_nil some
  rw [lines, pieces]
  rfl

end Lines

theorem isBlank_of_isTabOrSpace {c : Char} (h : isTabOrSpace c = true) :
    CharClass.isBlank c = true := by
  rw [isTabOrSpace, Bool.or_eq_true, beq_iff_eq, beq_iff_eq] at h
  rcases h with rfl | rfl <;> rfl

/-! ## Layouts -/

/-- Each part of a factory is on one line. -/
structure Factory.Lined (f : Factory) : Prop where
  docs : OneLine f.docs.toList
  documented : f.docs.toList ≠ []
  head : OneLine f.toMethod.head
  body : OneLine f.body.toList
  statement : f.body.toList ≠ []

namespace MemberLayout

variable {l : MemberLayout}

/-- The indentations are blank. -/
structure Blank (l : MemberLayout) : Prop where
  outer : ∀ c ∈ l.outer, CharClass.isBlank c = true
  member : ∀ c ∈ l.member, CharClass.isBlank c = true
  unit : ∀ c ∈ l.unit, CharClass.isBlank c = true
  newLine : ∃ n : NewLine, l.newLine = n.text

theorem ofLiteral_blank {text fallback : List Char}
    (blank : ∀ c ∈ fallback, CharClass.isBlank c = true) (literal : Node) :
    (ofLiteral text fallback literal).Blank := by
  have outer : ∀ c ∈ lineIndentation text literal.span.start, CharClass.isBlank c = true :=
    fun c hc => isBlank_of_isTabOrSpace (List.all_eq_true.1 List.all_takeWhile c hc)
  have member : ∀ c ∈ (ofLiteral text fallback literal).member, CharClass.isBlank c = true := by
    show ∀ c ∈ ((literal.child? .properties).bind
      (indentationBefore? text ·.span.start)).getD _, _
    cases found : (literal.child? .properties).bind (indentationBefore? text ·.span.start) with
    | none => exact List.forall_mem_append.2 ⟨outer, blank⟩
    | some line =>
      obtain ⟨first, -, hline⟩ := Option.bind_eq_some_iff.1 found
      unfold indentationBefore? at hline
      dsimp only at hline
      split at hline
      · next plain =>
        cases hline
        exact fun c hc => isBlank_of_isTabOrSpace (List.all_eq_true.1 plain c hc)
      · cases hline
  refine ⟨outer, member, ?_, _, rfl⟩
  unfold ofLiteral
  dsimp only
  split
  · split
    · exact blank
    · exact fun c hc => member c (List.mem_of_mem_drop hc)
  · exact blank

/-- A factory before it is indented. -/
theorem text_eq {f : Factory} (lined : f.Lined) :
    f.toMethod.text { indent := l.unit, newLine := l.newLine } 0 =
      ("/** ".toList ++ trim f.docs.toList ++ " */".toList) ++ (l.newLine ++
        ((f.toMethod.head ++ " \x7b".toList) ++ (l.newLine ++
          ((l.unit ++ f.body.toList) ++ (l.newLine ++ ['\x7d']))))) := by
  have docText : Method.docText f.docs { indent := l.unit, newLine := l.newLine } 0 =
      "/** ".toList ++ trim f.docs.toList ++ " */".toList ++ l.newLine := by
    rw [Method.docText, lines_last lined.docs lined.documented]
    rfl
  simp [Method.text, Factory.toMethod, docText, Layout.line, Layout.indentation]

theorem Blank.factoryText_eq (blank : l.Blank) {f : Factory} (lined : f.Lined) (cs : List Char) :
    l.factoryText f ++ cs =
      l.newLine ++ (l.member ++ ("/** ".toList ++ (trim f.docs.toList ++ (" */".toList ++
        (l.newLine ++ (l.member ++ (f.toMethod.head ++ (" \x7b".toList ++
          (l.newLine ++ (l.member ++ (l.unit ++ (f.body.toList ++
            (l.newLine ++ (l.member ++ '\x7d' :: ',' :: cs)))))))))))))) := by
  obtain ⟨n, newLine⟩ := blank.newLine
  have first : OneLine ("/** ".toList ++ trim f.docs.toList ++ " */".toList) :=
    (OneLine.append (by decide) fun c hc => lined.docs c (mem_of_mem_trim hc)).append (by decide)
  have second : OneLine (f.toMethod.head ++ " \x7b".toList) := lined.head.append (by decide)
  have third : OneLine (l.unit ++ f.body.toList) := (oneLine_of_blank blank.unit).append lined.body
  have fourth : lines ['\x7d'] = [['\x7d']] := lines_last (by decide) (by decide)
  rw [factoryText, indentLines, text_eq lined, newLine, lines_newLine first, lines_newLine second,
    lines_newLine third, fourth]
  have noBody : ¬ (l.unit = [] ∧ f.body = "") := fun h => lined.statement (by rw [h.2]; rfl)
  simp [noBody]

end MemberLayout

/-! ## Words -/

section Words

variable {tail cs : List Char} {ws : List Word}

namespace ReturnedValue

theorem spells {v : ReturnedValue} (parameter : IsWord v.parameter) (enum : IsWord v.enum)
    (kind : IsWord v.kind) (h : Spells tail cs ws) :
    Spells tail ("\x7b ...".toList ++ (v.parameter.toList ++ (", kind: ".toList ++
      (v.enum.toList ++ ('.' :: (v.kind.toList ++ (" \x7d".toList ++ cs)))))))
      (v.words ++ ws) := by
  have closed := (h.mark (k := .closeBrace) (c := '\x7d') (by decide)).blank
  have dotted := TypeTerm.dots_spell (List.forall_mem_singleton.2 kind) closed
    (Word.endsName_cons (by decide))
  have access := dotted.name enum (Word.endsName_cons (by decide))
  have property := (access.markBlank (k := .colon) (c := ':') (by decide)).name (x := "kind")
    (by decide +kernel) (Word.endsName_cons (by decide))
  have behind := property.blank.mark (k := .comma) (c := ',') (by decide)
  have spread := Spells.word rfl Word.before_dots
    (behind.name parameter (Word.endsName_cons (by decide)))
  have all := spread.blank.mark (k := .openBrace) (c := '\x7b') (by decide)
  simpa [words, Word.dots] using all

end ReturnedValue

namespace FactoryTerm

variable {t : FactoryTerm} {gap inside behind : List Char}

/-- The body, from its opening brace on, with a comma behind it. -/
theorem Fits.body_spells (fits : t.Fits) (first : Trivia.Passes inside true)
    (second : Trivia.Passes behind true) (h : Spells tail cs ws) :
    Spells tail ('\x7b' :: (inside ++ ("return \x7b ...".toList ++
        (t.value.parameter.toList ++ (", kind: ".toList ++ (t.value.enum.toList ++
          ('.' :: (t.value.kind.toList ++ (" \x7d;".toList ++
            (behind ++ '\x7d' :: ',' :: cs))))))))))
      (t.bodyWords ++ .mark .comma ',' :: ws) := by
  have comma := h.mark (k := .comma) (c := ',') (by decide)
  have closed := Spells.line second
    (Word.before_alone (k := .closeBrace) (c := '\x7d') (by decide)) comma
  have ended := closed.mark (k := .semicolon) (c := ';') (by decide)
  have value := t.value.spells fits.parameter.1 fits.enum.1 fits.kind ended
  have keyword := Spells.line first (Word.before_keyword (k := .returnKeyword) (by decide)
    (Word.endsName_cons (by decide))) value.blank
  have all := keyword.mark (k := .openBrace) (c := '\x7b') (by decide)
  simpa [bodyWords, Word.keyword, Kind.wordText?, Kind.reservedText?, Word.mark] using all

/-- The text of a factory, with these gaps in front of its statement and behind it. -/
def text (t : FactoryTerm) (inside behind : List Char) : List Char :=
  t.name.toList ++ ('(' :: (t.value.parameter.toList ++ (": ".toList ++ (t.parameterType.text ++
    ("): ".toList ++ (t.result.toList ++ (" \x7b".toList ++ (inside ++ ("return \x7b ...".toList ++
      (t.value.parameter.toList ++ (", kind: ".toList ++ (t.value.enum.toList ++ ('.' ::
        (t.value.kind.toList ++ (" \x7d;".toList ++ (behind ++ ['\x7d']))))))))))))))))

/-- The factory with a comma behind it. -/
theorem Fits.spells (fits : t.Fits) (first : Trivia.Passes inside true)
    (second : Trivia.Passes behind true) (h : Spells tail cs ws) :
    Spells tail (t.text inside behind ++ ',' :: cs)
      (.name t.name :: (t.words.tail ++ .mark .comma ',' :: ws)) := by
  have body := (fits.body_spells first second h).blank
  have result := (body.name fits.result.1 (Word.endsName_cons (by decide))).markBlank (k := .colon)
    (c := ':') (by decide)
  have close := result.mark (k := .closeParen) (c := ')') (by decide)
  have type := (fits.parameterType.spells close (Word.endsName_cons (by decide))).markBlank
    (k := .colon) (c := ':') (by decide)
  have parameter := (type.name fits.parameter.1 (Word.endsName_cons (by decide))).mark
    (k := .openParen) (c := '(') (by decide)
  have all := parameter.name fits.word (Word.endsName_cons (by decide))
  simpa [words, text] using all

/-- A factory begins with its name. -/
theorem Fits.begins (fits : t.Fits) (inside behind cs : List Char) (fileStart : Bool) :
    Trivia.ofChars fileStart (t.text inside behind ++ cs) = {} := by
  rw [text, List.append_assoc]
  exact (Word.before_name fits.word (Word.endsName_cons (by decide))).trivia fileStart

end FactoryTerm
end Words

/-! ## Factories of structures -/

/-- The spelling of a name that is no keyword. -/
structure IsPlain (name : String) : Prop where
  word : IsWord name
  kind : Kind.ofName name = .identifier

instance (name : String) : Decidable (IsPlain name) :=
  decidable_of_iff (IsWord name ∧ Kind.ofName name = .identifier)
    ⟨fun h => ⟨h.1, h.2⟩, fun h => ⟨h.word, h.kind⟩⟩

/-- What the names of a factory are made of is no keyword. -/
structure Config.Plain (c : Config) : Prop where
  generatedPrefix : IsPlain c.generatedPrefix
  kindEnum : IsPlain c.kindEnum
  optionalKindType : IsPlain c.optionalKindType

structure StructureRecord.Plain (r : StructureRecord) : Prop where
  name : IsPlain r.name
  kind : IsPlain r.kind

namespace Factory

theorem mem_of_mem_replaceFirst {pattern cs : List Char} {c : Char}
    (h : c ∈ replaceFirst pattern [] cs) : c ∈ cs := by
  induction cs with
  | nil => simp [replaceFirst] at h
  | cons d cs ih =>
    rw [replaceFirst] at h
    split at h
    · exact List.mem_of_mem_drop h
    · exact List.mem_cons.2 ((List.mem_cons.1 h).imp_right ih)

theorem mem_of_mem_withoutEnd {tail text : String} {c : Char}
    (h : c ∈ (withoutEnd tail text).toList) : c ∈ text.toList := by
  rw [withoutEnd] at h
  split at h
  · rw [String.toList_ofList] at h
    exact List.mem_of_mem_take h
  · exact h

theorem mem_of_mem_subject {suffix name : String} {c : Char}
    (h : c ∈ (subject suffix name).toList) : c ∈ name.toList := by
  have first {c : Char}
      (h : c ∈ (String.ofList (replaceFirst suffix.toList [] name.toList)).toList) :
      c ∈ name.toList := by
    rw [String.toList_ofList] at h
    exact mem_of_mem_replaceFirst h
  unfold subject at h
  dsimp only at h
  split at h
  · exact first (mem_of_mem_withoutEnd h)
  · exact first (mem_of_mem_withoutEnd (mem_of_mem_withoutEnd h))

/-- A prefix that is a name makes a name of whatever part of a name follows it. -/
theorem ofRecord_isWord {c : Config} {r : StructureRecord} (word : IsWord c.generatedPrefix)
    (named : IsWord r.name) : IsWord (ofRecord c r).name := by
  obtain ⟨d, cs, text, start, parts⟩ := word
  refine ⟨d, cs ++ (subject c.structureSuffix r.name).toList, ?_, start, ?_⟩
  · show (c.generatedPrefix ++ _).toList = _
    rw [String.toList_append, text]
    rfl
  · exact List.forall_mem_append.2 ⟨parts, fun d hd => named.parts d (mem_of_mem_subject hd)⟩

end Factory

namespace FactoryTerm

variable {c : Config} {r : StructureRecord}

/-- The factory of a structure. -/
def ofRecord (c : Config) (r : StructureRecord) : FactoryTerm where
  name := (Factory.ofRecord c r).name
  parameterType := .reference c.optionalKindType [] [.reference r.name [] []]
  result := r.name
  value := { parameter := "structure", enum := c.kindEnum, kind := r.kind }

theorem structure_isPlain :
    IsWord "structure" ∧ Kind.ofName "structure" = .identifier := by decide +kernel

theorem ofRecord_fits (config : c.Plain) (record : r.Plain) : (ofRecord c r).Fits where
  word := Factory.ofRecord_isWord config.generatedPrefix.word record.name.word
  parameter := structure_isPlain
  enum := ⟨config.kindEnum.word, config.kindEnum.kind⟩
  kind := record.kind.word
  parameterType := by
    have argument : TypeTerm.Fits .whole (.reference r.name [] []) :=
      .ofName record.name.word record.name.kind nofun
    exact .ofName config.optionalKindType.word config.optionalKindType.kind
      (List.forall_mem_singleton.2 argument)
  result := ⟨record.name.word, record.name.kind⟩

theorem head_eq (c : Config) (r : StructureRecord) :
    (Factory.ofRecord c r).toMethod.head =
      (ofRecord c r).name.toList ++ ("(structure: ".toList ++ ((ofRecord c r).parameterType.text ++
        ("): ".toList ++ r.name.toList))) := by
  simp [Factory.ofRecord, Factory.toMethod, Method.head, Parameter.text, typeSuffix, ofRecord,
    TypeTerm.text, TypeTerm.texts, toString]

theorem docs_eq (c : Config) (r : StructureRecord) : (Factory.ofRecord c r).docs.toList =
    "Create a structure for a ".toList ++ (r.name.toList ++ ".".toList) := by
  simp [Factory.ofRecord, toString]

theorem body_eq (c : Config) (r : StructureRecord) : (Factory.ofRecord c r).body.toList =
    "return \x7b ...structure, kind: ".toList ++ (c.kindEnum.toList ++ ('.' :: (r.kind.toList ++
      " \x7d;".toList))) := by
  simp [Factory.ofRecord, toString]

theorem ofRecord_lined (config : c.Plain) (record : r.Plain) :
    (Factory.ofRecord c r).Lined where
  docs := by
    rw [docs_eq]
    exact .append (by decide) (record.name.word.oneLine.append (by decide))
  documented := by simp [docs_eq]
  head := by
    have parameterType : OneLine (ofRecord c r).parameterType.text := by
      have text : (ofRecord c r).parameterType.text =
          c.optionalKindType.toList ++ (['<'] ++ (r.name.toList ++ ['>'])) := by
        simp [ofRecord, TypeTerm.text, TypeTerm.texts]
      rw [text]
      exact config.optionalKindType.word.oneLine.append
        (.append (by decide) (record.name.word.oneLine.append (by decide)))
    have name := Factory.ofRecord_isWord config.generatedPrefix.word record.name.word
    rw [head_eq]
    exact name.oneLine.append (.append (by decide)
      (parameterType.append (.append (by decide) record.name.word.oneLine)))
  body := by
    rw [body_eq]
    exact .append (by decide) (config.kindEnum.word.oneLine.append
      (OneLine.append (by decide : OneLine ['.']) (record.kind.word.oneLine.append (by decide))))
  statement := by simp [body_eq]

variable {l : MemberLayout} {tail cs remark : List Char} {ws : List Word}

/-- What stands in front of a factory on its lines: a doc comment and the indentation. -/
def lead (c : Config) (r : StructureRecord) (l : MemberLayout) : List Char :=
  l.member ++ ("/** ".toList ++ (trim (Factory.ofRecord c r).docs.toList ++ (" */".toList ++
    (l.newLine ++ l.member))))

/-- The text of the factory of a structure. -/
def code (c : Config) (r : StructureRecord) (l : MemberLayout) : List Char :=
  (ofRecord c r).text (l.newLine ++ (l.member ++ l.unit)) (l.newLine ++ l.member)

theorem factoryText_eq (blank : l.Blank) (config : c.Plain) (record : r.Plain) :
    l.factoryText (.ofRecord c r) =
      l.newLine ++ (lead c r l ++ (code c r l ++ [','])) := by
  have text := blank.factoryText_eq (ofRecord_lined config record) []
  rw [List.append_nil] at text
  rw [text, head_eq, body_eq]
  simp [lead, code, FactoryTerm.text, ofRecord]

theorem lead_passes (blank : l.Blank) (record : r.Plain) : Trivia.Passes (lead c r l) true := by
  obtain ⟨n, newLine⟩ := blank.newLine
  have star : '*' ∉ trim (Factory.ofRecord c r).docs.toList ++ [' '] := by
    have noStar : '*' ∉ r.name.toList := fun star =>
      absurd (record.name.word.parts _ star) (by decide)
    have docs : '*' ∉ (Factory.ofRecord c r).docs.toList := by
      rw [docs_eq]
      simpa using noStar
    simpa using fun star => docs (mem_of_mem_trim star)
  have member := Trivia.Passes.blanks blank.member
  have all := member.append ((Trivia.Passes.docComment star).append
    ((Trivia.Passes.newLine n).append member))
  rw [lead, newLine]
  simpa using all

theorem code_spells (blank : l.Blank) (config : c.Plain) (record : r.Plain)
    (h : Spells tail cs ws) : Spells tail (code c r l ++ ',' :: cs)
      (.name (ofRecord c r).name :: ((ofRecord c r).words.tail ++ .mark .comma ',' :: ws)) := by
  obtain ⟨n, newLine⟩ := blank.newLine
  have member := Trivia.Passes.blanks blank.member
  have inside := (Trivia.Passes.newLine n).append
    (member.append (Trivia.Passes.blanks blank.unit))
  have behind := (Trivia.Passes.newLine n).append member
  rw [code, newLine]
  exact (ofRecord_fits config record).spells inside behind h

/-- The doc comment belongs to the gap in front of the factory, and so does a comment that the line
before it ends with. -/
theorem factoryText_spells (blank : l.Blank) (config : c.Plain) (record : r.Plain)
    (isRemark : Trivia.IsRemark remark) (h : Spells tail cs ws) :
    Spells tail (remark ++ (l.factoryText (.ofRecord c r) ++ cs))
      ((ofRecord c r).words ++ .mark .comma ',' :: ws) := by
  obtain ⟨n, newLine⟩ := blank.newLine
  have gap := (Trivia.Passes.remark isRemark n).append (lead_passes (c := c) blank record)
  have all := (code_spells blank config record h).onNewLine gap
  have row : (ofRecord c r).words =
      (Word.name (ofRecord c r).name).onNewLine :: (ofRecord c r).words.tail := rfl
  rw [factoryText_eq blank config record, newLine, row]
  simpa using all

theorem factories_spell (blank : l.Blank) (config : c.Plain) {records : List StructureRecord}
    (plain : ∀ r ∈ records, r.Plain) :
    Spells tail (records.flatMap (fun r => l.factoryText (.ofRecord c r)) ++ tail)
      (records.flatMap fun r => (ofRecord c r).words ++ [.mark .comma ',']) := by
  induction records with
  | nil => exact .done
  | cons r records ih =>
    obtain ⟨record, others⟩ := List.forall_mem_cons.1 plain
    simpa using factoryText_spells blank config record (.inl rfl) (ih others)

/-- The first factory stands behind the comment. -/
theorem remark_spells (blank : l.Blank) (config : c.Plain) {records : List StructureRecord}
    (some : records ≠ []) (plain : ∀ r ∈ records, r.Plain) (isRemark : Trivia.IsRemark remark) :
    Spells tail (remark ++ (records.flatMap (fun r => l.factoryText (.ofRecord c r)) ++ tail))
      (records.flatMap fun r => (ofRecord c r).words ++ [.mark .comma ',']) := by
  obtain ⟨r, records, rfl⟩ := List.exists_cons_of_ne_nil some
  obtain ⟨record, others⟩ := List.forall_mem_cons.1 plain
  simpa using factoryText_spells blank config record isRemark (factories_spell blank config others)

end FactoryTerm

end FactorySync
