import FactorySync.Proofs.ImportFrames
import FactorySync.Proofs.LineBreaks
import FactorySync.Proofs.RewrittenImports
import FactorySync.Proofs.Specifiers

/-!
# A run keeps the line breaks

A file of which every line feed follows a carriage return stays one of that kind through all stages
of a run. No stage cuts a line break in two, because members and imports end where tokens end, and
what is put in is a list of pieces without line feeds, joined by the line break of the file
(`Generation.run_returned`).

Each stage takes the line break from the text that it works on. So the kept line break is the one of
the cleared text: if all line feeds of a file go with its stale factories, the new factories come
with line feeds alone (`Generation.clearedBreaks_lost`).
-/

namespace FactorySync

open Parse

variable {text : List Char}

/-! ## Pieces without line feeds -/

theorem Returned.intercalate {sep : List Char} {pieces : List (List Char)} (hsep : Returned sep)
    (h : ∀ piece ∈ pieces, Returned piece) : Returned (sep.intercalate pieces) := by
  induction pieces with
  | nil => exact .nil
  | cons piece pieces ih =>
    obtain ⟨first, rest⟩ := List.forall_mem_cons.1 h
    cases pieces with
    | nil => simpa using first
    | cons next pieces =>
      rw [List.intercalate_cons_cons]
      exact (first.append hsep).append (ih rest)

theorem returned_crlf : Returned NewLine.crlf.text := by decide

theorem feed_not_mem_dropTrailingReturn {line : List Char} (h : '\n' ∉ line) :
    '\n' ∉ dropTrailingReturn line := by
  unfold dropTrailingReturn
  split
  · exact fun feed => h (List.mem_of_mem_dropLast feed)
  · exact h

theorem feed_not_mem_lines {line : List Char} (h : line ∈ lines text) : '\n' ∉ line := by
  have piece {line : List Char} (h : line ∈ text.splitOn '\n') : '\n' ∉ line :=
    fun feed => (mem_of_mem_splitOn h feed).2 rfl
  have ended {line : List Char}
      (h : line ∈ (text.splitOn '\n').dropLast.map dropTrailingReturn) : '\n' ∉ line := by
    obtain ⟨line, hline, rfl⟩ := List.mem_map.1 h
    exact feed_not_mem_dropTrailingReturn (piece (List.mem_of_mem_dropLast hline))
  unfold lines at h
  dsimp only at h
  split at h
  · exact ended h
  · exact ended h
  · next last hlast =>
    rcases List.mem_append.1 h with h | h
    · exact ended h
    · rw [List.mem_singleton.1 h]
      exact piece (List.mem_of_getLast? hlast)

theorem returned_indentLines {indent : List Char} (h : '\n' ∉ indent) (printed : List Char) :
    Returned (indentLines NewLine.crlf.text indent printed) := by
  refine returned_crlf.intercalate (List.forall_mem_map.2 fun line hline => ?_)
  split
  · exact .nil
  · refine .of_not_mem fun feed => ?_
    exact (List.mem_append.1 feed).elim h (feed_not_mem_lines hline)

/-! ## Clearing -/

/-- A member is cut out without the half of a line break. -/
theorem Member.Placed.removal_notFeed {m : Member} (placed : m.Placed text)
    (returned : Returned text) (stop : NotFeed text m.fullStop) :
    NotFeed text (m.removalSpan text).stop := by
  cases hown : m.onOwnLines text with
  | false =>
    rw [removalSpan_of_not_onOwnLines hown]
    exact stop
  | true =>
    obtain ⟨line, rest, hline, htrailing, -, hspan⟩ := removalSpan_of_onOwnLines hown
    have place := placed.trailing_place
    rw [htrailing, ← List.singleton_append, ← List.append_assoc] at place
    have behind := returned.notFeed place (by simp)
    rw [byteLength_append, hline.byteLength_eq, ← Nat.add_assoc] at behind
    rw [hspan]
    exact behind

namespace Node

variable {r s : Reading} {literal : Node}

/-- No offset of an object literal is in the middle of a line break. -/
theorem literal_notFeed (h : Reads r literal s) (returned : Returned text) (whole : r.Whole text)
    (isLiteral : literal.kind = .objectLiteralExpression) :
    NotFeed text literal.openBraceEnd ∧ NotFeed text literal.closeBraceStart ∧
      ∀ m ∈ literal.members, NotFeed text m.fullStop := by
  obtain ⟨last, ends, members, -, hopen, hclose, hmembers, -⟩ :=
    literal_read h whole.sound isLiteral
  have inside := (Step.advance r).whole returned whole
  rw [hopen, hclose, hmembers]
  exact ⟨inside.lastEnd, (members.run.whole returned inside).here,
    members.fullStop_notFeed returned inside 0 _⟩

theorem clearGenerated_returned {lead : String} {change : MemberChange} (h : Reads r literal s)
    (returned : Returned text) (whole : r.Whole text)
    (isLiteral : literal.kind = .objectLiteralExpression)
    (clears : literal.clearGenerated text lead = .ok change) : Returned change.text := by
  obtain ⟨-, tile⟩ := literal_tile h whole.sound isLiteral
  obtain ⟨-, -, stops⟩ := literal_notFeed h returned whole isLiteral
  refine Edit.applyAll_returned returned (tile.deletions_cuts _) (fun e he => ?_)
    (clearGenerated_eq_ok.1 clears).1
  obtain ⟨m, hm, -, rfl⟩ := Member.mem_deletions.1 he
  obtain ⟨i, hi⟩ := List.getElem?_of_mem hm
  exact ⟨.nil, (tile.placed hi).removal_notFeed returned (stops m hm)⟩

end Node

/-! ## Inserting -/

theorem afterLineComment_notFeed {pos : Nat} (returned : Returned text)
    (boundary : isBoundary pos text = true) (stop : NotFeed text pos) :
    NotFeed text (afterLineComment text pos) := by
  unfold afterLineComment
  dsimp only
  split
  · next comment =>
    have place := StandsAt.of_boundary boundary
    rw [← List.takeWhile_append_dropWhile (p := fun c => decide (c ≠ '\r' ∧ c ≠ '\n'))
      (l := dropBytes pos text)] at place
    refine returned.notFeed place ?_
    generalize hline : (dropBytes pos text).takeWhile (fun c => decide (c ≠ '\r' ∧ c ≠ '\n')) = line
      at comment
    cases hlast : line.getLast? with
    | none => simp [List.getLast?_eq_none_iff.1 hlast] at comment
    | some c =>
      have other := List.all_eq_true.1 (hline ▸ List.all_takeWhile) c (List.mem_of_getLast? hlast)
      simpa using (of_decide_eq_true other).1
  · exact stop

theorem blank_of_mem_takeWhile {c : Char} {cs : List Char} (h : c ∈ cs.takeWhile isTabOrSpace) :
    c ≠ '\n' := by
  have blank := List.all_eq_true.1 List.all_takeWhile c h
  rintro rfl
  exact absurd blank (by decide)

namespace MemberLayout

/-- The layout of a literal has no line feed but in its line break. -/
structure Plain (l : MemberLayout) : Prop where
  outer : '\n' ∉ l.outer
  member : '\n' ∉ l.member

theorem ofLiteral_plain {fallback : List Char} (h : '\n' ∉ fallback) (literal : Node) :
    (ofLiteral text fallback literal).Plain := by
  have outer : '\n' ∉ lineIndentation text literal.span.start :=
    fun feed => blank_of_mem_takeWhile feed rfl
  refine ⟨outer, ?_⟩
  show '\n' ∉ (((literal.child? .properties).bind
    (indentationBefore? text ·.span.start)).getD _)
  cases found : (literal.child? .properties).bind (indentationBefore? text ·.span.start) with
  | none => exact fun feed => (List.mem_append.1 feed).elim outer h
  | some line =>
    obtain ⟨first, -, hline⟩ := Option.bind_eq_some_iff.1 found
    unfold indentationBefore? at hline
    dsimp only at hline
    split at hline
    · next blank =>
      cases hline
      exact fun feed => absurd (List.all_eq_true.1 blank _ feed) (by decide)
    · cases hline

theorem Plain.factoryText_returned {l : MemberLayout} (plain : l.Plain)
    (newLine : l.newLine = NewLine.crlf.text) (f : Factory) : Returned (l.factoryText f) := by
  rw [factoryText, newLine]
  exact (returned_crlf.append (returned_indentLines plain.member _)).append (by decide)

end MemberLayout

namespace Node

variable {r s : Reading} {literal : Node}

theorem insertFactories_returned {factories : List Factory} {fallback : String}
    {change : MemberChange} (h : Reads r literal s) (returned : Returned text)
    (whole : r.Whole text) (isLiteral : literal.kind = .objectLiteralExpression)
    (feed : '\n' ∈ text) (plain : '\n' ∉ fallback.toList)
    (inserts : literal.insertFactories text factories fallback = .ok change) :
    Returned change.text ∧ '\n' ∈ change.text := by
  obtain ⟨inside, tile⟩ := literal_tile h whole.sound isLiteral
  obtain ⟨opened, closed, stops⟩ := literal_notFeed h returned whole isLiteral
  rw [insertFactories_text h whole.sound isLiteral] at inserts
  obtain rfl := Except.ok.inj inserts
  dsimp only
  split
  · exact ⟨returned, feed⟩
  next some =>
  generalize hl : MemberLayout.ofLiteral text fallback.toList literal = l
  have layout : l.Plain := hl ▸ MemberLayout.ofLiteral_plain plain literal
  have newLine : l.newLine = NewLine.crlf.text := by
    rw [← hl, MemberLayout.ofLiteral, returned.newLineOf feed]
  have added : Returned (factories.flatMap l.factoryText) :=
    .flatMap fun f _ => layout.factoryText_returned newLine f
  have kept : Returned (literal.insertionFront text) ∧
      Returned (literal.insertionBack text l) := by
    unfold insertionFront insertionBack
    split
    · next last hlast =>
      obtain ⟨i, hi⟩ := List.getElem?_of_mem (List.mem_of_getLast? hlast)
      have stop := stops last (List.mem_of_getLast? hlast)
      have boundary := (tile.placed hi).fullStop_boundary
      have comma : Returned (if last.separatorEnd.isNone then [','] else []) := by
        split <;> decide
      exact ⟨returned.takeBytes.append (comma.append (returned.sliceBytes stop)),
        returned.dropBytes (afterLineComment_notFeed returned boundary stop)⟩
    · refine ⟨returned.takeBytes, ?_⟩
      split
      · exact returned.dropBytes opened
      · rw [newLine]
        exact (returned_crlf.append (.of_not_mem layout.outer)).append (returned.dropBytes closed)
  refine ⟨kept.1.append (added.append kept.2), ?_⟩
  obtain ⟨f, hf⟩ := List.exists_mem_of_ne_nil factories (by simpa using some)
  refine List.mem_append_right _ (List.mem_append_left _ (List.mem_flatMap.2 ⟨f, hf, ?_⟩))
  rw [MemberLayout.factoryText, newLine]
  simp [NewLine.text]

end Node

/-! ## Imports -/

theorem OneLine.intercalate {sep : List Char} {pieces : List (List Char)} (hsep : OneLine sep)
    (h : ∀ piece ∈ pieces, OneLine piece) : OneLine (sep.intercalate pieces) := by
  intro c hc
  obtain hc | ⟨piece, hpiece, hc⟩ := mem_intercalate hc
  · exact hsep c hc
  · exact h piece hpiece c hc

theorem ImportItem.Proper.oneLine {i : ImportItem} (h : i.Proper) : OneLine i.text := by
  refine OneLine.append (OneLine.append ?_ h.exported.oneLine) ?_
  · split <;> decide
  · split
    · next name hname => exact OneLine.append (by decide) (h.renamed name hname).word.oneLine
    · exact List.forall_mem_nil _

theorem QuoteMark.mem_escaped {q : QuoteMark} {value : List Char} {c : Char}
    (h : c ∈ q.escaped value) : c = '\\' ∨ c ∈ value := by
  induction value with
  | nil => exact absurd h List.not_mem_nil
  | cons d value ih =>
    have rest (h : c ∈ q.escaped value) : c = '\\' ∨ c ∈ d :: value :=
      (ih h).imp_right (List.mem_cons_of_mem d)
    unfold escaped at h
    split at h
    · rcases List.mem_cons.1 h with backslash | h
      · exact .inl backslash
      · exact (List.mem_cons.1 h).elim (fun here => .inr (here ▸ List.mem_cons_self)) rest
    · exact (List.mem_cons.1 h).elim (fun here => .inr (here ▸ List.mem_cons_self)) rest

namespace Import

variable {i : Import}

theorem Proper.oneLine_clause (h : i.Proper) : OneLine i.clauseText := by
  have list : OneLine (ImportItem.listText i.items) :=
    OneLine.intercalate (by decide) (List.forall_mem_map.2 fun item mem => (h.items item mem).oneLine)
  refine OneLine.intercalate (by decide) (List.forall_mem_append.2 ⟨?_, ?_⟩)
  · exact List.forall_mem_map.2 fun name hname =>
      (h.defaultName name (Option.mem_toList.1 hname)).word.oneLine
  · split
    · next name hname =>
      exact List.forall_mem_singleton.2
        (OneLine.append (by decide) (h.namespaceName name hname).word.oneLine)
    · split
      · exact List.forall_mem_nil _
      · exact List.forall_mem_singleton.2
          (OneLine.append (OneLine.append (by decide) list) (by decide))

/-- Only the name of the module can break the line of an import. -/
theorem Proper.mem_text (h : i.Proper) {q : QuoteMark} {c : Char} (hc : c ∈ i.text q) :
    (c ≠ '\n' ∧ c ≠ '\r') ∨ c ∈ i.specifier.toList := by
  have mark : OneLine [q.char] := by cases q <;> decide
  have front : OneLine ("import ".toList ++ (if i.isTypeOnly then "type ".toList else []) ++
      (if i.bindsNothing then [] else i.clauseText ++ " from ".toList)) := by
    refine OneLine.append (OneLine.append (by decide) ?_) ?_
    · split <;> decide
    · split
      · exact List.forall_mem_nil _
      · exact h.oneLine_clause.append (by decide)
  rcases List.mem_append.1 hc with hc | semicolon
  · rcases List.mem_append.1 hc with hc | hc
    · exact .inl (front c hc)
    · rcases List.mem_append.1 hc with hc | hc
      · rcases List.mem_cons.1 hc with rfl | hc
        · exact .inl (mark _ List.mem_cons_self)
        · exact (QuoteMark.mem_escaped hc).imp_left fun backslash => by rw [backslash]; decide
      · exact .inl (mark c hc)
  · exact .inl ((by decide : OneLine [';']) c semicolon)

theorem Proper.feed_not_mem (h : i.Proper) (q : QuoteMark) (line : '\n' ∉ i.specifier.toList) :
    '\n' ∉ i.text q := fun feed => (h.mem_text feed).elim (fun other => other.1 rfl) line

/-- The text of an import is on one line if the name of the module is. -/
theorem Proper.oneLine (h : i.Proper) (q : QuoteMark) (line : OneLine i.specifier.toList) :
    OneLine (i.text q) := fun c hc => (h.mem_text hc).elim id (line c)

end Import

namespace Path

variable {c : Char} {path source target : String}

theorem mem_segments {s : Segment} {cs : List Char} (h : s ∈ (NormalPath.ofChars cs).segments)
    (hc : c ∈ s) : c = '/' ∨ c ∈ cs := by
  rw [NormalPath.ofChars_segments, List.mem_reverse] at h
  obtain ⟨piece, -⟩ := (NormalPath.mem_foldl h).resolve_left List.not_mem_nil
  obtain ⟨d, hd, same⟩ := List.mem_map.1 (mem_of_mem_splitOn piece hc).1
  split at same
  · exact .inl same.symm
  · exact .inr (same ▸ hd)

theorem mem_normalize (h : c ∈ (normalize path).toList) : c = '/' ∨ c ∈ path.toList := by
  rw [normalize, String.toList_ofList] at h
  rcases List.mem_append.1 h with root | inside
  · split at root
    · exact .inl (List.mem_singleton.1 root)
    · cases root
  · rcases mem_intercalate inside with slash | ⟨s, hs, hc⟩
    · exact .inl (List.mem_singleton.1 slash)
    · exact mem_segments hs hc

theorem mem_withoutExtension (h : c ∈ (withoutExtension path).toList) : c ∈ path.toList := by
  unfold withoutExtension at h
  dsimp only at h
  split at h
  · rw [String.toList_ofList] at h
    exact List.mem_of_mem_take h
  · split at h
    · exact h
    · next dot before found =>
      split at h
      · rw [String.toList_ofList, List.mem_reverse] at h
        have back : c ∈ path.toList.reverse.dropWhile (· ≠ '.') := found ▸ .tail dot h
        exact List.mem_reverse.1 ((List.dropWhile_suffix _).mem back)
      · exact h

theorem mem_withoutIndex (h : c ∈ (withoutIndex path).toList) : c ∈ path.toList := by
  unfold withoutIndex at h
  split at h
  · rw [String.toList_ofList, withoutTrailingSlashes, List.mem_reverse] at h
    exact List.mem_of_mem_take (List.mem_reverse.1 ((List.dropWhile_suffix _).mem h))
  · exact h

theorem mem_relativeTo (h : c ∈ (relativeTo source target).toList) :
    c = '.' ∨ c = '/' ∨ c ∈ target.toList := by
  rw [relativeTo, String.toList_ofList] at h
  rcases mem_intercalate h with slash | ⟨s, hs, hc⟩
  · exact .inr (.inl (List.mem_singleton.1 slash))
  · rcases List.mem_append.1 hs with up | down
    · rw [List.eq_of_mem_replicate up] at hc
      exact .inl (by simpa using hc)
    · exact .inr (mem_segments (List.mem_of_mem_drop down) hc)

/-- A specifier has the characters of the path that it leads to. -/
theorem mem_specifier (h : c ∈ (specifier source target).toList) :
    c = '.' ∨ c = '/' ∨ c ∈ target.toList := by
  have way (h : c ∈ (moduleWay source target).toList) : c = '.' ∨ c = '/' ∨ c ∈ target.toList := by
    refine (mem_relativeTo h).imp_right fun there => there.elim .inl fun there => ?_
    exact mem_normalize (mem_withoutExtension (mem_withoutIndex there))
  rcases specifier_cases source target with ⟨dot, -⟩ | ⟨up, -⟩ | down
  · rw [dot] at h
    exact .inl (by simpa using h)
  · exact way (up ▸ h)
  · rw [down, String.toList_append] at h
    rcases List.mem_append.1 h with front | back
    · rcases List.mem_cons.1 front with dot | slash
      · exact .inl dot
      · exact .inr (.inl (List.mem_singleton.1 slash))
    · exact way back

end Path

namespace ImportDraft

variable {p : Program} {file : FileId} {f : SourceFile} {d : ImportDraft}

/-- Every import to be made is one of a file of the program. -/
def Reaching (p : Program) (file : FileId) (d : ImportDraft) : Prop :=
  ∀ entry ∈ d.fresh, ∃ exporter, entry.1 = Path.specifier (p.path file) (p.path exporter)

theorem mem_addFresh_specifier {specifier name : String} {fresh : List (String × List String)}
    {entry : String × List String} (h : entry ∈ addFresh specifier name fresh) :
    entry.1 = specifier ∨ ∃ before ∈ fresh, before.1 = entry.1 := by
  induction fresh with
  | nil => exact .inl (by rw [List.mem_singleton.1 h])
  | cons first fresh ih =>
    obtain ⟨s, names⟩ := first
    rw [addFresh] at h
    split at h
    · rcases List.mem_cons.1 h with rfl | h
      · exact .inr ⟨_, .head _, rfl⟩
      · exact .inr ⟨entry, .tail _ h, rfl⟩
    · rcases List.mem_cons.1 h with rfl | h
      · exact .inr ⟨_, .head _, rfl⟩
      · obtain here | ⟨before, mem, same⟩ := ih h
        · exact .inl here
        · exact .inr ⟨before, .tail _ mem, same⟩

theorem reaching (p : Program) (file : FileId) (f : SourceFile) :
    (ofProgram p file f).Reaching p file := by
  refine ofProgram_induction (fun _ none => absurd none List.not_mem_nil) ?_
  intro d name exporter _ h
  unfold ImportDraft.add
  dsimp only
  split
  · exact h
  · intro entry hentry
    rcases mem_addFresh_specifier hentry with here | ⟨before, mem, same⟩
    · exact ⟨exporter, here⟩
    · exact same ▸ h before mem

end ImportDraft

/-! ## Edits to imports -/

/-- Behind more text that does not end with a carriage return there is no line feed either. -/
theorem NotFeed.behind {p : Nat} {cs rest : List Char} (h : NotFeed text p) (returned : Returned text)
    (place : StandsAt text p (cs ++ rest)) (last : ∀ c ∈ cs.getLast?, c ≠ '\r') :
    NotFeed text (p + byteLength cs) := by
  cases hlast : cs.getLast? with
  | none =>
    rw [List.getLast?_eq_none_iff.1 hlast]
    exact h
  | some c => exact returned.notFeed place (by simpa [hlast] using last c hlast)

/-- What goes with an import ends in front of a whole line break or behind one. -/
theorem ImportPlan.lineSpan_notFeed {span : Span} (returned : Returned text) (cuts : span.Cuts text)
    (stop : NotFeed text span.stop) : NotFeed text (lineSpan text span).stop := by
  obtain ⟨blanks, line, rest, behind, hspan, blank, hline⟩ := lineSpan_tail text span
  have place := StandsAt.of_boundary cuts.stop_boundary
  rw [behind, ← List.append_assoc] at place
  rw [hspan]
  refine stop.behind returned place fun c hc => ?_
  rcases hline with rfl | rfl | ⟨rfl, -⟩
  · simp at hc
    simp [← hc]
  · simp at hc
    simp [← hc]
  · rw [List.append_nil] at hc
    rcases blank c (List.mem_of_getLast? hc) with rfl | rfl <;> decide

namespace SourceFile

variable {path : String}

theorem imports_notFeed {n : Node} (clean : (parse path text).hasErrors = false)
    (returned : Returned text) (hn : n ∈ (parse path text).imports) :
    NotFeed text n.span.start ∧ NotFeed text n.span.stop := by
  obtain ⟨mem, kind⟩ := List.mem_filter.1 hn
  obtain ⟨r, s, run, reads⟩ := run_of_contains clean (.child mem (.self n))
    (by simp [beq_iff_eq.1 kind])
  have whole := run.whole returned (Parser.firstReading_whole path returned)
  exact ⟨reads.start_eq ▸ whole.here, reads.stop_notFeed returned whole⟩

end SourceFile

namespace ImportDraft

variable {p : Program} {file : FileId} {path : String}

theorem freshImport_proper {entry : String × List String} (words : ∀ x ∈ entry.2, IsWord x) :
    (freshImport entry).Proper where
  defaultName := by simp [freshImport]
  namespaceName := by simp [freshImport]
  items := ImportPlan.sortedItems_proper words
  single := by simp [freshImport]
  notFrom := by simp [freshImport]

/-- The imports to be made are of names that the file uses. -/
theorem fresh_proper (clean : (SourceFile.parse path text).hasErrors = false) :
    ∀ entry ∈ (ofProgram p file (.parse path text)).fresh, (freshImport entry).Proper := by
  refine fun entry hentry => freshImport_proper fun x hx => ?_
  have pending : x ∈ (ofProgram p file (.parse path text)).pending :=
    List.mem_append_right _ (List.mem_flatMap.2 ⟨entry, hentry, hx⟩)
  exact SourceFile.isWord_of_free clean (mem_added.1 (ofProgram_pending.mem_iff.1 pending)).1

/-- All imports to be made are on one line each. -/
theorem freshTexts_returned (clean : (SourceFile.parse path text).hasErrors = false)
    (paths : ∀ id, '\n' ∉ (p.path id).toList) :
    ∀ new ∈ (ofProgram p file (.parse path text)).freshTexts, Returned new := by
  intro new hnew
  obtain ⟨entry, hentry, rfl⟩ := List.mem_map.1 hnew
  obtain ⟨exporter, hspecifier⟩ := reaching p file _ entry hentry
  refine .of_not_mem ((fresh_proper clean entry hentry).feed_not_mem _ fun feed => ?_)
  have feed : '\n' ∈ entry.1.toList := feed
  rw [hspecifier] at feed
  rcases Path.mem_specifier feed with dot | slash | there
  · exact absurd dot (by decide)
  · exact absurd slash (by decide)
  · exact paths exporter there

theorem insert_returned {new : List Char} {pos : Nat} (returned : Returned new)
    (notFeed : NotFeed text pos) : Returned (Edit.insert pos new).text ∧
      NotFeed text (Edit.insert pos new).span.stop :=
  ⟨returned, notFeed⟩

/-- No edit of a draft cuts a line break in two or brings a line feed alone. -/
theorem edits_returned (clean : (SourceFile.parse path text).hasErrors = false)
    (returned : Returned text) (feed : '\n' ∈ text) (paths : ∀ id, '\n' ∉ (p.path id).toList)
    (lines : ∀ n ∈ (SourceFile.parse path text).imports,
      '\n' ∉ (Import.ofNode n).specifier.toList) :
    ∀ e ∈ (ofProgram p file (.parse path text)).edits text,
      Returned e.text ∧ NotFeed text e.span.stop := by
  intro e he
  have order := SourceFile.imports_inOrder clean
  rcases List.mem_append.1 he with he | he
  · obtain ⟨plan, hplan, hedit⟩ := List.mem_filterMap.1 he
    obtain ⟨hnode, hkept⟩ := exists_ofNode hplan
    obtain ⟨-, stop⟩ := SourceFile.imports_notFeed clean returned hnode
    unfold ImportPlan.edit? at hedit
    split at hedit
    · cases hedit
    · next replaced =>
      cases hedit
      obtain ⟨proper, -⟩ := result_of_replaced clean hplan replaced
      have line : '\n' ∉ plan.kept.specifier.toList := by
        rw [hkept]
        exact lines _ hnode
      exact ⟨.of_not_mem (proper.feed_not_mem _ line), stop⟩
    · cases hedit
      exact ⟨.nil, ImportPlan.lineSpan_notFeed returned (order.cuts _ hnode) stop⟩
  · split at he
    · cases he
    rw [List.mem_singleton.1 he, returned.newLineOf feed]
    have new : ∀ new ∈ (ofProgram p file (.parse path text)).freshTexts, Returned new :=
      freshTexts_returned clean paths
    have mem {plan : ImportPlan} (hplan : plan ∈ (ofProgram p file (.parse path text)).plans) :=
      SourceFile.imports_notFeed clean returned (exists_ofNode hplan).1
    unfold freshEdit
    split
    · next plan hlast =>
      have hplan := (List.mem_filter.1 (List.mem_of_getLast? hlast)).1
      exact insert_returned (.flatMap fun one hone => returned_crlf.append (new one hone))
        (mem hplan).2
    · next plan _ hhead =>
      exact insert_returned (.flatMap fun one hone => (new one hone).append returned_crlf)
        (mem (List.mem_of_head? hhead)).1
    · exact insert_returned ((Returned.flatMap fun one hone =>
        (new one hone).append returned_crlf).append returned_crlf) returned.notFeed_zero

end ImportDraft

theorem Program.reconcileImports_returned {p : Program} {file : FileId} {path : String}
    {change : ImportChange} (clean : (SourceFile.parse path text).hasErrors = false)
    (returned : Returned text) (feed : '\n' ∈ text) (paths : ∀ id, '\n' ∉ (p.path id).toList)
    (lines : ∀ n ∈ (SourceFile.parse path text).imports,
      '\n' ∉ (Import.ofNode n).specifier.toList)
    (h : p.reconcileImports file (.parse path text) = .ok change) : Returned change.text := by
  have order : InOrder text
      ((ImportDraft.ofProgram p file (.parse path text)).plans.map (·.node)) := by
    rw [ImportDraft.ofProgram_nodes]
    exact SourceFile.imports_inOrder clean
  have applied := (reconcileImports_eq_ok.1 h).1
  rw [SourceFile.parse_text] at applied
  exact Edit.applyAll_returned returned (ImportDraft.edits_cuts order)
    (ImportDraft.edits_returned clean returned feed paths lines) applied

/-! ## Whole runs -/

namespace Generation

variable {project : Project} {c : Config}

theorem path_feed_not_mem (paths : ∀ path ∈ project.paths, '\n' ∉ path.toList) (id : FileId) :
    '\n' ∉ ((Program.ofProject project).path id).toList := by
  rw [Program.path, Program.ofProject_file?]
  cases found : project.file? id with
  | none => exact List.not_mem_nil
  | some f =>
    have listed : project.paths[id]? = some f.path := Project.paths_getElem?.2 ⟨f, found, rfl⟩
    rw [Option.map_some, Option.map_some, Option.getD_some, SourceFile.parse_path]
    exact paths f.path (List.mem_of_getElem? listed)

/-- The target of an intact file is read where no line break is cut in two. -/
theorem target_whole {file : FileId} {path : String} {literal : Node} (returned : Returned text)
    (hf : intact (.ofProject project) file = .ok (.parse path text))
    (h : target (.ofProject project) file c = .ok literal) :
    literal.kind = .objectLiteralExpression ∧
      ∃ r s, r.Whole text ∧ Reads r literal s := by
  obtain ⟨found, isLiteral⟩ := target_contains hf h
  obtain ⟨r, s, run, reads⟩ := SourceFile.run_of_contains (intact_eq_ok.1 hf).2 found
    (by simp [isLiteral])
  exact ⟨isLiteral, r, s, run.whole returned (Parser.firstReading_whole path returned), reads⟩

/-- If every line feed of the target follows a carriage return, all is on one line that is on one
line by itself (a level of indentation, the paths of the project, the modules that are imported),
and a line feed is left when the stale factories are gone, then every line feed of the outcome
follows a carriage return. -/
theorem run_returned {o : Outcome} (h : run project c = .ok o) (returned : Returned o.before)
    (indent : '\n' ∉ c.indent.toList) (paths : ∀ path ∈ project.paths, '\n' ∉ path.toList) :
    ∃ p : Passage project c o, Returned p.cleared ∧ ('\n' ∈ p.cleared →
      Returned p.filled ∧
      ((∀ n ∈ (SourceFile.parse o.path p.filled).imports,
        '\n' ∉ (Import.ofNode n).specifier.toList) → Returned o.after)) := by
  obtain ⟨p⟩ := run_passage h
  obtain ⟨isLiteral, r, s, whole, reads⟩ := target_whole returned p.before_intact p.literal_target
  have cleared := Node.clearGenerated_returned reads returned whole isLiteral p.clears
  refine ⟨p, cleared, fun feed => ?_⟩
  obtain ⟨isLiteral, r, s, whole, reads⟩ := target_whole cleared p.cleared_intact p.room_target
  obtain ⟨filled, feed⟩ :=
    Node.insertFactories_returned reads cleared whole isLiteral feed indent p.fills
  refine ⟨filled, fun lines => ?_⟩
  refine Program.reconcileImports_returned (intact_eq_ok.1 p.filled_intact).2 filled feed ?_ lines
    p.reconciles
  refine path_feed_not_mem ?_
  rwa [Project.modify_paths fun _ => ProjectFile.withText_path,
    Project.modify_paths fun _ => ProjectFile.withText_path]

/-- A target with an import that nothing uses, a stale factory and a member that stays. -/
def returnedTarget : String := "import D from 'd'\r\ninterface AS \x7b kind: K.A \x7d\r\n" ++
  "export const T = \x7b cB() \x7b\x7d,\r\n a, \x7d as K"

theorem returnedTarget_stages : Returned returnedTarget.toList ∧
    (run (onlyTarget returnedTarget) shortNames).toOption.any (fun o =>
      (target (.ofProject (onlyTarget returnedTarget)) o.file shortNames).toOption.any fun literal =>
        (literal.clearGenerated returnedTarget.toList "c").toOption.any fun cleared =>
          (target (.ofProject ((onlyTarget returnedTarget).modify o.file (.withText cleared.text)))
            o.file shortNames).toOption.any fun room =>
            (room.insertFactories cleared.text (factories (onlyTarget returnedTarget) shortNames)
              shortNames.indent).toOption.any fun filled =>
                cleared.text.contains '\n' && o.before == returnedTarget.toList &&
                  o.created == ["cA"] && o.importsRemoved == ["D"] &&
                  (SourceFile.parse o.path filled.text).imports.all fun n =>
                    !(Import.ofNode n).specifier.toList.contains '\n') = true := by
  decide +kernel

theorem returnedTarget_run : ∃ o,
    run (onlyTarget returnedTarget) shortNames = .ok o ∧ Returned o.before ∧
    o.created = ["cA"] ∧ o.importsRemoved = ["D"] ∧ Returned o.after := by
  obtain ⟨returned, test⟩ := returnedTarget_stages
  obtain ⟨o, ho, test⟩ := (Option.any_eq_true _ _).1 test
  obtain ⟨literal, hliteral, test⟩ := (Option.any_eq_true _ _).1 test
  obtain ⟨cleared, hcleared, test⟩ := (Option.any_eq_true _ _).1 test
  obtain ⟨room, hroom, test⟩ := (Option.any_eq_true _ _).1 test
  obtain ⟨filled, hfilled, test⟩ := (Option.any_eq_true _ _).1 test
  simp only [Bool.and_eq_true, beq_iff_eq, List.contains_iff_mem, List.all_eq_true,
    Bool.not_eq_true', ← Bool.not_eq_true] at test
  obtain ⟨⟨⟨⟨feed, before⟩, created⟩, removed⟩, lines⟩ := test
  rw [← before] at returned hcleared
  obtain ⟨p, -, kept⟩ := run_returned (toOption_eq_some.1 ho) returned (by decide) (by decide)
  -- the run goes through the same stages
  obtain rfl := Except.ok.inj (p.literal_target.symm.trans (toOption_eq_some.1 hliteral))
  obtain rfl := Except.ok.inj (p.clears.symm.trans (toOption_eq_some.1 hcleared))
  obtain rfl := Except.ok.inj (p.room_target.symm.trans (toOption_eq_some.1 hroom))
  obtain rfl := Except.ok.inj (p.fills.symm.trans (toOption_eq_some.1 hfilled))
  exact ⟨o, toOption_eq_some.1 ho, returned, created, removed, (kept feed).2 lines⟩

/-! ## A target that loses all its line breaks -/

/-- The only line break of the target is in a stale factory. -/
def clearedBreaks : String :=
  "interface AS \x7b kind: K.A \x7d export const T = \x7b cA() \x7b\r\n\x7d \x7d as K"

theorem clearedBreaks_texts : shortNames.problem? = none ∧
    (run (onlyTarget clearedBreaks) shortNames).toOption.any (fun o =>
      decide (Returned o.before) && o.before.contains '\n' &&
        (SourceFile.parse o.path o.before).imports.isEmpty && !decide (Returned o.after)) = true := by
  decide +kernel

/-- When the factories are inserted no line break is left to judge by. -/
theorem clearedBreaks_lost : ∃ o, shortNames.problem? = none ∧
    run (onlyTarget clearedBreaks) shortNames = .ok o ∧
    Returned o.before ∧ '\n' ∈ o.before ∧
    (∀ path ∈ (onlyTarget clearedBreaks).paths, '\n' ∉ path.toList) ∧
    (SourceFile.parse o.path o.before).imports = [] ∧ ¬ Returned o.after := by
  obtain ⟨valid, test⟩ := clearedBreaks_texts
  obtain ⟨o, ho, test⟩ := (Option.any_eq_true _ _).1 test
  simp only [Bool.and_eq_true, Bool.not_eq_true', decide_eq_true_eq, decide_eq_false_iff_not,
    List.contains_iff_mem, List.isEmpty_iff] at test
  obtain ⟨⟨⟨returned, feed⟩, imports⟩, lost⟩ := test
  exact ⟨o, valid, toOption_eq_some.1 ho, returned, feed, by decide, imports, lost⟩

end Generation

end FactorySync
