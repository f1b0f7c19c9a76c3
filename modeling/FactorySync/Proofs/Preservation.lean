import FactorySync.Proofs.Resuming
import FactorySync.Proofs.Stages

/-!
# What an insertion keeps

Factories are put in behind the last member or between the braces of an empty literal, and the text
around them stays as it is. Only where the braces of an empty literal stand on one line is something
taken out: what is between them (`Node.overwritten`), which is meant to be blank but may be a
comment (`Generation.comment_overwritten`).

The old members keep their places, since everything in front of the insertion stays. What is put in
is read again as members of the literal, one for each factory (`SourceFile.ResumesWith`): a parse of
the new text that comes to the place of the insertion finds the words of the factories there and
then the brace that closed the literal before.
-/

namespace FactorySync

open Parse

variable {text : List Char}

/-- The characters that are not blank. -/
def visible (cs : List Char) : List Char := cs.filter (!CharClass.isSpace ·)

theorem visible_append (cs ds : List Char) : visible (cs ++ ds) = visible cs ++ visible ds :=
  List.filter_append ..

theorem visible_eq_nil {cs : List Char} (blank : ∀ c ∈ cs, CharClass.isSpace c = true) :
    visible cs = [] := by
  simpa [visible] using blank

/-- Taking out a part loses nothing visible just if the part is blank. -/
theorem visible_without_iff {front comment gone rest : List Char} :
    visible (front ++ (comment ++ (gone ++ rest))) =
      visible front ++ (visible comment ++ visible rest) ↔ visible gone = [] := by
  simp only [visible_append]
  constructor
  · intro same
    have length := congrArg List.length same
    simp only [List.length_append] at length
    exact List.length_eq_zero_iff.1 (by omega)
  · intro blank
    rw [blank, List.nil_append]

namespace Node

/-- There are no members, and the braces stand on one line. -/
def IsBare (text : List Char) (literal : Node) : Prop :=
  literal.members = [] ∧ '\n' ∉ sliceBytes literal.openBraceEnd literal.closeBraceStart text

instance (text : List Char) (literal : Node) : Decidable (literal.IsBare text) :=
  decidable_of_iff (literal.members.isEmpty = true ∧
      '\n' ∉ sliceBytes literal.openBraceEnd literal.closeBraceStart text)
    (and_congr_left' List.isEmpty_iff)

/-- What gives way to the factories. -/
def overwritten (text : List Char) (literal : Node) : List Char :=
  if literal.IsBare text then sliceBytes literal.openBraceEnd literal.closeBraceStart text else []

/-- What is written behind the factories, so that the closing brace stands on a line of its own. -/
def closing (text : List Char) (l : MemberLayout) (literal : Node) : List Char :=
  if literal.IsBare text then l.newLine ++ l.outer else []

/-- The comma that the last member lacks. -/
def missingComma (literal : Node) : List Char :=
  if literal.members.getLast?.any (·.separatorEnd.isNone) then [','] else []

/-- The line comment behind the last member. -/
def lineComment (text : List Char) (literal : Node) : List Char :=
  (literal.members.getLast?.map fun last =>
    sliceBytes last.fullStop (afterLineComment text last.fullStop) text).getD []

theorem insertionFront_eq (text : List Char) (literal : Node) : literal.insertionFront text =
    takeBytes literal.insertionPlace text ++ (literal.missingComma ++ literal.lineComment text) := by
  unfold insertionFront insertionPlace missingComma lineComment
  cases literal.members.getLast? with
  | none => simp
  | some last => rfl

/-- How an insertion cuts the text. -/
structure Cut (text : List Char) (literal : Node) (rest : List Char) : Prop where
  text_eq : text = takeBytes literal.insertionPlace text ++
    (literal.lineComment text ++ (literal.overwritten text ++ rest))
  back_eq : ∀ l, literal.insertionBack text l = literal.closing text l ++ rest
  /-- The comment is none or a line comment, and what is behind it closes the literal. -/
  closes : (∀ c ∈ literal.lineComment text, CharClass.isLineBreak c = false) →
    Trivia.IsRemark (literal.lineComment text) ∧
      ∀ {l : MemberLayout}, l.Blank → ClosesNext (literal.closing text l ++ rest)

/-- Behind the last member. -/
theorem cut_behind {start : Nat} {literal : Node} {last : Member}
    (tile : Member.Tile text start literal.members) (hlast : literal.members.getLast? = some last)
    (closes : ClosesNext (dropBytes literal.insertionPlace text)) :
    literal.Cut text (dropBytes (afterLineComment text last.fullStop) text) := by
  obtain ⟨i, hi⟩ := List.getElem?_of_mem (List.mem_of_getLast? hlast)
  have hplace : literal.insertionPlace = last.fullStop := by rw [insertionPlace, hlast]; rfl
  have hcomment : literal.lineComment text =
      sliceBytes last.fullStop (afterLineComment text last.fullStop) text := by
    rw [lineComment, hlast]
    rfl
  have place := (tile.placed hi).fullStop_boundary
  have behind := afterLineComment_boundary place
  have le := afterLineComment_le text last.fullStop
  have notBare : ¬ literal.IsBare text := fun bare => by
    rw [bare.1] at hlast
    cases hlast
  refine ⟨?_, fun l => ?_, fun line => ?_⟩
  · rw [overwritten, if_neg notBare, List.nil_append, hplace, hcomment, ← List.append_assoc,
      ← takeBytes_slice place behind le, takeBytes_append_dropBytes]
  · rw [insertionBack, hlast, closing, if_neg notBare, List.nil_append]
  · rw [hplace, ((StandsAt.of_boundary place).slice_between (.of_boundary behind) le).1] at closes
    simp only [closing, if_neg notBare, List.nil_append]
    rw [hcomment] at line ⊢
    obtain none | ⟨isRemark, broken⟩ := afterLineComment_remark place line
    · rw [none, List.nil_append] at closes
      exact ⟨.inl none, fun _ => closes⟩
    · exact ⟨isRemark, fun _ => closes.of_remark isRemark broken⟩

/-- Between the braces. -/
theorem cut_inside {literal : Node}
    (inside : (⟨literal.openBraceEnd, literal.closeBraceStart⟩ : Span).Cuts text)
    (empty : literal.members = []) (closes : ClosesNext (dropBytes literal.insertionPlace text))
    (closeBrace : ClosesNext (dropBytes literal.closeBraceStart text)) :
    ∃ rest, literal.Cut text rest := by
  have hplace : literal.insertionPlace = literal.openBraceEnd := by rw [insertionPlace, empty]; rfl
  have hcomment : literal.lineComment text = [] := by rw [lineComment, empty]; rfl
  have isRemark : Trivia.IsRemark (literal.lineComment text) := .inl hcomment
  by_cases breaks : '\n' ∈ sliceBytes literal.openBraceEnd literal.closeBraceStart text
  · have notBare : ¬ literal.IsBare text := fun bare => bare.2 breaks
    refine ⟨dropBytes literal.openBraceEnd text, ?_, fun l => ?_, fun _ => ⟨isRemark, fun {l} _ => ?_⟩⟩
    · rw [overwritten, if_neg notBare, hplace, hcomment, List.nil_append, List.nil_append,
        takeBytes_append_dropBytes]
    · rw [insertionBack, empty, List.getLast?_nil, closing, if_neg notBare, List.nil_append]
      exact if_pos (by simpa using breaks)
    · rwa [closing, if_neg notBare, List.nil_append, ← hplace]
  · have bare : literal.IsBare text := ⟨empty, breaks⟩
    refine ⟨dropBytes literal.closeBraceStart text, ?_, fun l => ?_, fun _ =>
      ⟨isRemark, fun {l} blank => ?_⟩⟩
    · rw [overwritten, if_pos bare, hplace, hcomment, List.nil_append, ← List.append_assoc,
        ← takeBytes_slice inside.start_boundary inside.stop_boundary inside.start_le_stop,
        takeBytes_append_dropBytes]
    · rw [insertionBack, empty, List.getLast?_nil, closing, if_pos bare]
      exact if_neg (by simpa using breaks)
    · obtain ⟨n, newLine⟩ := blank.newLine
      rw [closing, if_pos bare, newLine]
      exact closeBrace.gap ((Trivia.Passes.newLine n).append (.blanks blank.outer))

theorem exists_cut {r s : Reading} {literal : Node} (h : Reads r literal s) (sound : r.Sound text)
    (isLiteral : literal.kind = .objectLiteralExpression) : ∃ rest, literal.Cut text rest := by
  obtain ⟨inside, tile⟩ := literal_tile h sound isLiteral
  have closes := closesNext h sound isLiteral
  cases hlast : literal.members.getLast? with
  | some last => exact ⟨_, cut_behind tile hlast closes⟩
  | none =>
    exact cut_inside inside (List.getLast?_eq_none_iff.1 hlast) closes
      (closeBrace h sound isLiteral)

theorem isSpace_of_isTabOrSpace {c : Char} (h : isTabOrSpace c = true) :
    CharClass.isSpace c = true := by
  rw [isTabOrSpace, Bool.or_eq_true, beq_iff_eq, beq_iff_eq] at h
  rcases h with rfl | rfl <;> rfl

theorem closing_blank (fallback : List Char) (literal : Node) :
    visible (literal.closing text (.ofLiteral text fallback literal)) = [] := by
  refine visible_eq_nil fun c hc => ?_
  rw [closing] at hc
  split at hc
  · rcases List.mem_append.1 hc with newLine | outer
    · have blank : ∀ n : NewLine, n.text.all CharClass.isSpace = true := by
        intro n
        cases n <;> rfl
      exact List.all_eq_true.1 (blank _) c newLine
    · exact isSpace_of_isTabOrSpace (List.all_eq_true.1 List.all_takeWhile c outer)
  · cases hc

end Node

/-- Wherever an object literal has been read up to the offset, in a text without errors, it goes on
with one method for each structure and ends. -/
def SourceFile.ResumesWith (text : List Char) (pos : Nat) (c : Config)
    (records : List StructureRecord) : Prop :=
  ∀ (path : String) (literal : Node), (parse path text).hasErrors = false →
    (parse path text).tree.Contains literal → literal.kind = .objectLiteralExpression →
    literal.ReadsTo pos → ∃ old new, literal.children = old ++ new ∧
      (∀ n ∈ old, n.span.stop ≤ pos) ∧ List.Forall₂ (fun r n => ∃ flags, n.unplaced =
        ((FactoryTerm.ofRecord c r).tree flags).inRole .properties) records new

/-- Behind the place of an insertion the factories are read, unless a line separator hides in the
comment behind the last member. -/
theorem Node.insertion_resumes {r s : Reading} {literal : Node} {c : Config}
    {records : List StructureRecord} {fallback : List Char} (reads : Reads r literal s)
    (sound : r.Sound text) (isLiteral : literal.kind = .objectLiteralExpression)
    (some : records ≠ []) (config : c.Plain) (plain : ∀ r ∈ records, r.Plain)
    (blank : ∀ b ∈ fallback, CharClass.isBlank b = true)
    (line : ∀ b ∈ literal.lineComment text, CharClass.isLineBreak b = false) :
    let l := MemberLayout.ofLiteral text fallback literal
    SourceFile.ResumesWith (literal.insertionFront text ++
        (records.flatMap (fun r => l.factoryText (.ofRecord c r)) ++ literal.insertionBack text l))
      (byteLength (takeBytes literal.insertionPlace text ++ literal.missingComma)) c records := by
  intro l path again clean found isAgain readsTo
  obtain ⟨rest, cut⟩ := exists_cut reads sound isLiteral
  have layout : l.Blank := MemberLayout.ofLiteral_blank blank literal
  obtain ⟨isRemark, closes⟩ := cut.closes line
  obtain ⟨r, s, sound, reads⟩ := SourceFile.reads_of_contains clean found (by simp [isAgain])
  refine resumes reads sound isAgain layout config some plain isRemark (closes layout) ?_ readsTo
  rw [insertionFront_eq, cut.back_eq]
  simp only [List.append_assoc]

namespace Generation

variable {project : Project} {file : FileId} {c : Config} {f : SourceFile} {literal : Node}

/-- What an insertion adds and what it takes out, for every intact file and every target in it. Only
what was between the braces of a bare literal gives way, and nothing visible is lost just if that is
blank. The members stay where they are, and what is read behind them are the factories, unless a
line separator hides in the comment behind the last member. -/
theorem insertion_keeps (hf : intact (.ofProject project) file = .ok f)
    (located : target (.ofProject project) file c = .ok literal) {records : List StructureRecord}
    (some : records ≠ []) (fallback : String) :
    let front := takeBytes literal.insertionPlace f.text
    let comment := literal.lineComment f.text
    let l := MemberLayout.ofLiteral f.text fallback.toList literal
    ∃ rest change, literal.insertFactories f.text (records.map (.ofRecord c)) fallback = .ok change ∧
      change.names = records.map (fun r => (Factory.ofRecord c r).name) ∧
      f.text = front ++ (comment ++ (literal.overwritten f.text ++ rest)) ∧
      change.text = front ++ (literal.missingComma ++ (comment ++ (records.flatMap (fun r =>
        l.factoryText (.ofRecord c r)) ++ (literal.closing f.text l ++ rest)))) ∧
      visible (literal.closing f.text l) = [] ∧
      (visible f.text = visible front ++ (visible comment ++ visible rest) ↔
        visible (literal.overwritten f.text) = []) ∧
      (∀ m ∈ literal.members, takeBytes m.fullStop f.text <+: change.text) ∧
      (c.Plain → (∀ r ∈ records, r.Plain) →
        (∀ b ∈ fallback.toList, CharClass.isBlank b = true) →
        (∀ b ∈ comment, CharClass.isLineBreak b = false) →
        SourceFile.ResumesWith change.text (byteLength (front ++ literal.missingComma)) c
          records) := by
  intro front comment l
  obtain ⟨r, s, sound, reads⟩ := target_reads hf located
  have isLiteral := (target_contains hf located).2
  obtain ⟨inside, tile⟩ := Node.literal_tile reads sound isLiteral
  obtain ⟨rest, cut⟩ := Node.exists_cut reads sound isLiteral
  have inserts := Node.insertFactories_text reads sound isLiteral (records.map (.ofRecord c)) fallback
  have text : literal.insertionFront f.text ++ ((records.map (Factory.ofRecord c)).flatMap
      l.factoryText ++ literal.insertionBack f.text l) =
      front ++ (literal.missingComma ++ (comment ++ (records.flatMap (fun r =>
        l.factoryText (.ofRecord c r)) ++ (literal.closing f.text l ++ rest)))) := by
    rw [Node.insertionFront_eq, cut.back_eq, List.flatMap_map]
    simp only [List.append_assoc, front, comment]
  rw [List.isEmpty_eq_false_iff.2 (by simpa using some), if_neg Bool.false_ne_true] at inserts
  dsimp only at inserts
  rw [text] at inserts
  refine ⟨rest, _, inserts, ?_, cut.text_eq, rfl, Node.closing_blank .., ?_, fun m hm => ?_, ?_⟩
  · simp
  · conv_lhs => rw [cut.text_eq]
    exact visible_without_iff
  · refine (Node.insertionFront_keeps tile hm).trans ?_
    dsimp only
    rw [← text]
    exact List.prefix_append _ _
  · intro config plain blank line
    dsimp only
    rw [← text, List.flatMap_map]
    exact Node.insertion_resumes reads sound isLiteral some config plain blank line

/-- A structure with a short name, so that the text of its factory is small enough to evaluate. -/
def oneRecord : List StructureRecord := [⟨"AS", "A"⟩]

/-- Whether the target of a text without errors has been read up to the offset. -/
def readsTo (text : List Char) (pos : Nat) : Bool :=
  !(SourceFile.parse "Structure.generated.ts" text).hasErrors &&
    (target (.ofProject { files := [{ path := "Structure.generated.ts", text }] }) 0
      shortNames).toOption.any (·.ReadsTo pos)

/-- A literal with a member and a comment behind it, which is read up to the comment again. -/
def commentedMember : String := "export const T = \x7b a, // 1%\n\x7d as K"

theorem commentedMember_insertion :
    (intact (.ofProject (onlyTarget commentedMember)) 0).toOption.any (fun f =>
      (target (.ofProject (onlyTarget commentedMember)) 0 shortNames).toOption.any fun literal =>
        (literal.insertFactories f.text (oneRecord.map (.ofRecord shortNames)) " ").toOption.any
          fun change =>
            (literal.lineComment f.text).contains '%' &&
            (literal.lineComment f.text).all (!CharClass.isLineBreak ·) &&
            readsTo change.text (byteLength
              (takeBytes literal.insertionPlace f.text ++ literal.missingComma))) = true := by
  decide +kernel

theorem contains_of_readsTo {text : List Char} {pos : Nat} (h : readsTo text pos = true) :
    ∃ path again, (SourceFile.parse path text).hasErrors = false ∧
      (SourceFile.parse path text).tree.Contains again ∧
      again.kind = .objectLiteralExpression ∧ again.ReadsTo pos := by
  rw [readsTo, Bool.and_eq_true, Bool.not_eq_true'] at h
  obtain ⟨clean, h⟩ := h
  obtain ⟨again, found, readsTo⟩ := (Option.any_eq_true _ _).1 h
  have intact : intact (.ofProject { files := [{ path := "Structure.generated.ts", text }] }) 0 =
      .ok (.parse "Structure.generated.ts" text) := intact_of_file rfl clean
  obtain ⟨contains, isLiteral⟩ := target_contains intact (toOption_eq_some.1 found)
  exact ⟨_, again, clean, contains, isLiteral, of_decide_eq_true readsTo⟩

/-- Nothing of it is lost, and the factory is read behind it. -/
theorem commentedMember_keeps : ∃ f literal change path again old flags,
    intact (.ofProject (onlyTarget commentedMember)) 0 = .ok f ∧
    target (.ofProject (onlyTarget commentedMember)) 0 shortNames = .ok literal ∧
    oneRecord ≠ [] ∧ '%' ∈ literal.lineComment f.text ∧
    literal.insertFactories f.text (oneRecord.map (.ofRecord shortNames)) " " = .ok change ∧
    change.names = ["cA"] ∧ (SourceFile.parse path change.text).hasErrors = false ∧
    (SourceFile.parse path change.text).tree.Contains again ∧
    (again.children.map (·.unplaced)) = old ++
      [((FactoryTerm.ofRecord shortNames ⟨"AS", "A"⟩).tree flags).inRole .properties] := by
  obtain ⟨f, hf, test⟩ := (Option.any_eq_true _ _).1 commentedMember_insertion
  obtain ⟨literal, hliteral, test⟩ := (Option.any_eq_true _ _).1 test
  obtain ⟨change, hchange, test⟩ := (Option.any_eq_true _ _).1 test
  simp only [Bool.and_eq_true, List.contains_iff_mem, List.all_eq_true, Bool.not_eq_true'] at test
  obtain ⟨⟨percent, line⟩, again⟩ := test
  have intact := toOption_eq_some.1 hf
  have located := toOption_eq_some.1 hliteral
  have some : oneRecord ≠ [] := List.cons_ne_nil _ _
  obtain ⟨rest, change', inserts, names, -, -, -, -, -, resumes⟩ :=
    insertion_keeps intact located some " "
  obtain rfl : change' = change := Except.ok.inj (inserts.symm.trans (toOption_eq_some.1 hchange))
  obtain ⟨path, again, clean, contains, isLiteral, readsTo⟩ := contains_of_readsTo again
  have config : shortNames.Plain := ⟨by decide +kernel, by decide +kernel, by decide +kernel⟩
  have plain : ∀ r ∈ oneRecord, r.Plain := by
    refine List.forall_mem_singleton.2 ⟨?_, ?_⟩ <;> decide +kernel
  have blank : ∀ b ∈ " ".toList, CharClass.isBlank b = true :=
    List.all_eq_true.1 (by decide +kernel)
  obtain ⟨old, new, children, -, methods⟩ := resumes config plain blank line path again clean
    contains isLiteral readsTo
  obtain ⟨n, rfl, flags, hn⟩ : ∃ n, new = [n] ∧ ∃ flags, n.unplaced =
      ((FactoryTerm.ofRecord shortNames ⟨"AS", "A"⟩).tree flags).inRole .properties := by
    cases methods with
    | cons method none =>
      cases none
      exact ⟨_, rfl, method⟩
  refine ⟨f, literal, change', path, again, old.map (·.unplaced), flags, intact, located, some,
    percent, inserts, names.trans ?_, clean, contains, ?_⟩
  · decide +kernel
  · rw [children, List.map_append, List.map_singleton, hn]

/-- A comment in a bare literal. -/
def bareComment : String := "export const T = \x7b /* 1% */ \x7d as K"

theorem bareComment_insertion :
    (intact (.ofProject (onlyTarget bareComment)) 0).toOption.any (fun _ =>
      (target (.ofProject (onlyTarget bareComment)) 0 shortNames).toOption.any fun literal =>
        (literal.insertFactories bareComment.toList (oneRecord.map (.ofRecord shortNames))
            " ").toOption.any fun change =>
          bareComment.toList.contains '%' && !change.text.contains '%') = true := by
  decide +kernel

/-- The comment gives way to the factory. -/
theorem comment_overwritten : ∃ f literal change,
    intact (.ofProject (onlyTarget bareComment)) 0 = .ok f ∧
    target (.ofProject (onlyTarget bareComment)) 0 shortNames = .ok literal ∧
    literal.insertFactories bareComment.toList (oneRecord.map (.ofRecord shortNames)) " " =
      .ok change ∧
    '%' ∈ bareComment.toList ∧ '%' ∉ change.text := by
  obtain ⟨f, hf, test⟩ := (Option.any_eq_true _ _).1 bareComment_insertion
  obtain ⟨literal, hliteral, test⟩ := (Option.any_eq_true _ _).1 test
  obtain ⟨change, hchange, test⟩ := (Option.any_eq_true _ _).1 test
  simp only [Bool.and_eq_true, List.contains_iff_mem, Bool.not_eq_true', ← Bool.not_eq_true] at test
  exact ⟨f, literal, change, toOption_eq_some.1 hf, toOption_eq_some.1 hliteral,
    toOption_eq_some.1 hchange, test⟩

end Generation
end FactorySync
