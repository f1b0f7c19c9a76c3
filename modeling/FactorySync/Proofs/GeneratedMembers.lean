import FactorySync.Proofs.Creation
import FactorySync.Proofs.GeneratedConstants
import FactorySync.Proofs.Pieces
import FactorySync.Proofs.UniformBreaks

/-!
# What a run does with the members of a generated file

Every member of a generated file stands on lines of its own, and a factory is taken out with them, so
clearing leaves a generated file with the other members (`GeneratedFile.LiteralAt.clearGenerated`).
There the layout that is asked for is that of the first member that is left
(`GeneratedFile.Proper.ofLiteral_layout`), and inserting factories makes a generated file again
(`GeneratedFile.LiteralAt.insertFactories`).
-/

namespace FactorySync

/-! ## Lines in front of an offset -/

section Lines

variable {lines line rest : List Char}

/-- The text consists of whole lines. -/
def WholeLines (lines : List Char) : Prop := lines = [] ∨ lines.getLast? = some '\n'

theorem WholeLines.nil : WholeLines [] := .inl rfl

theorem WholeLines.append {more : List Char} (h : WholeLines lines) (h' : WholeLines more) :
    WholeLines (lines ++ more) := by
  rcases h' with rfl | h'
  · rwa [List.append_nil]
  · exact .inr (by rw [List.getLast?_append, h']; rfl)

theorem WholeLines.newLine (line : List Char) (n : NewLine) : WholeLines (line ++ n.text) := by
  refine .inr ?_
  rw [List.getLast?_append]
  cases n <;> rfl

theorem WholeLines.flatMap {α : Type} {f : α → List Char} {as : List α}
    (h : ∀ a ∈ as, WholeLines (f a)) : WholeLines (as.flatMap f) := by
  induction as with
  | nil => exact .nil
  | cons a as ih =>
    obtain ⟨first, others⟩ := List.forall_mem_cons.1 h
    exact first.append (ih others)

/-- The line in front of an offset is what follows whole lines. -/
theorem lineBefore_eq (whole : WholeLines lines) (oneLine : OneLine line) :
    lineBefore (lines ++ line ++ rest) (byteLength (lines ++ line)) = line := by
  have inside : ∀ c ∈ line.reverse, decide (c ≠ '\n') = true := fun c hc =>
    decide_eq_true (oneLine c (List.mem_reverse.1 hc)).1
  have none : lines.reverse.takeWhile (· ≠ '\n') = [] := by
    rcases whole with rfl | last
    · rfl
    · rw [List.getLast?_eq_head?_reverse] at last
      obtain ⟨others, same⟩ := List.head?_eq_some_iff.1 last
      rw [same]
      rfl
  rw [lineBefore, takeBytes_append, List.reverse_append, List.takeWhile_append_of_pos inside, none,
    List.append_nil, List.reverse_reverse]

/-- What stands on the line does not depend on the lines in front of it. -/
theorem lineBefore_lines (lines : List Char) (n : NewLine) (line rest : List Char) :
    lineBefore (lines ++ n.text ++ line ++ rest) (byteLength (lines ++ n.text ++ line)) =
      lineBefore line (byteLength line) := by
  have ends : ∃ more, (lines ++ n.text).reverse = '\n' :: more := by
    cases n with
    | lf => exact ⟨_, List.reverse_concat⟩
    | crlf => exact ⟨_, by rw [NewLine.text, List.append_cons, List.reverse_concat]⟩
  obtain ⟨more, ends⟩ := ends
  have stops (cs : List Char) :
      (cs ++ '\n' :: more).takeWhile (· ≠ '\n') = cs.takeWhile (· ≠ '\n') := by
    induction cs with
    | nil => rfl
    | cons c cs ih => rw [List.cons_append, List.takeWhile_cons, List.takeWhile_cons, ih]
  have whole := takeBytes_append line []
  rw [List.append_nil] at whole
  rw [lineBefore, lineBefore, takeBytes_append, whole, List.reverse_append, ends, stops]

theorem newLineOf_cons_line {c : Char} (feed : c ≠ '\n') (ret : c ≠ '\r') (cs : List Char) :
    newLineOf (c :: cs) = newLineOf cs := by
  rw [newLineOf.eq_def]
  split
  · next heq => exact nomatch heq
  · next heq => exact absurd (List.cons.inj heq).1 ret
  · next heq =>
    cases heq
    rw [if_neg feed]

/-- The line break of a text is the one behind its first line. -/
theorem newLineOf_line (oneLine : OneLine line) (n : NewLine) (rest : List Char) :
    newLineOf (line ++ (n.text ++ rest)) = n := by
  induction line with
  | nil => cases n <;> rfl
  | cons c line ih =>
    obtain ⟨first, others⟩ := oneLine_cons.1 oneLine
    exact (newLineOf_cons_line first.1 first.2 _).trans (ih others)

theorem newLineOf_oneLine (oneLine : OneLine line) : newLineOf line = .lf := by
  induction line with
  | nil => rfl
  | cons c line ih =>
    obtain ⟨first, others⟩ := oneLine_cons.1 oneLine
    exact (newLineOf_cons_line first.1 first.2 _).trans (ih others)

end Lines

/-! ## Members on lines of their own -/

/-- A member that has a line break in front of it and one behind it is taken out from behind the
first to behind the second. -/
theorem Member.removalSpan_between {text rest rest' : List Char} {m : Member} {n : NewLine}
    (before : StandsAt text m.fullStart (n.text ++ rest))
    (start : m.fullStart + byteLength n.text ≤ m.element.span.start)
    (behind : StandsAt text m.fullStop (n.text ++ rest')) :
    m.removalSpan text =
      ⟨m.fullStart + byteLength n.text, m.fullStop + byteLength n.text⟩ := by
  obtain ⟨k, hk⟩ := Nat.le.dest start
  have leading : sliceBytes m.fullStart m.element.span.start text =
      n.text ++ takeBytes k rest := by
    rw [sliceBytes, before.dropBytes, ← hk, Nat.add_assoc, Nat.add_sub_cancel_left, takeBytes_add]
  rw [removalSpan, leading, behind.dropBytes]
  cases n <;> rfl

/-- Members that have the same names in the same places are taken out alike. -/
theorem Member.generatedNames_congr {ms ms' : List Member} (h : ms.map (·.heading) = ms'.map (·.heading))
    (lead : String) : (ms.filter (·.isGenerated lead)).filterMap (·.name?) =
      (ms'.filter (·.isGenerated lead)).filterMap (·.name?) := by
  induction ms generalizing ms' with
  | nil => rw [List.map_eq_nil_iff.1 h.symm]
  | cons m ms ih =>
    obtain ⟨m', ms', rfl, same, others⟩ := List.map_eq_cons_iff.1 h.symm
    have name : m'.name? = m.name? := congrArg Prod.snd same
    rw [List.filter_cons, List.filter_cons, isGenerated_congr same]
    split
    · rw [List.filterMap_cons, List.filterMap_cons, name, ih others.symm]
    · exact ih others.symm

namespace GeneratedFile

variable {c : Config} {g : GeneratedFile} {n : NewLine} {pos : Nat} {entries : List Entry}
  {ms : List (Node × Option Nat)}

/-- Entries with the line breaks behind them, of which the factories are to go. -/
def entryPieces (c : Config) (n : NewLine) (entries : List Entry) : List Piece :=
  entries.map fun e => ⟨e.lines ++ n.text, if e.isGenerated c then some [] else none⟩

theorem before_entryPieces (c : Config) (n : NewLine) (entries : List Entry) :
    n.text ++ Piece.before (entryPieces c n entries) = entriesText n entries ++ n.text := by
  rw [entriesText, flatMap_behind, Piece.before, entryPieces, List.flatMap_map]

/-- Behind entries and in front of them there is a line break. -/
theorem behind_entries (c : Config) (n : NewLine) (entries : List Entry) (rest : List Char) :
    entriesText n entries ++ (n.text ++ rest) =
      n.text ++ (Piece.before (entryPieces c n entries) ++ rest) := by
  rw [← List.append_assoc, ← before_entryPieces c, List.append_assoc]

theorem after_entryPieces (c : Config) (n : NewLine) (entries : List Entry) :
    n.text ++ Piece.after (entryPieces c n entries) =
      entriesText n (entries.filter (!·.isGenerated c)) ++ n.text := by
  have left : Piece.after (entryPieces c n entries) =
      (entries.filter (!·.isGenerated c)).flatMap fun e => e.lines ++ n.text := by
    induction entries with
    | nil => rfl
    | cons e entries ih =>
      rw [entryPieces, List.map_cons, Piece.after_cons, ← entryPieces, ih, List.filter_cons]
      cases e.isGenerated c <;> rfl
  rw [left, entriesText, flatMap_behind]

/-! ## Clearing -/

theorem EntriesAt.role (h : EntriesAt n pos entries ms) :
    ∀ m ∈ ms.map (·.1), m.role = .properties := by
  induction h with
  | nil => exact List.forall_mem_nil _
  | cons outline _ _ ih =>
    refine List.forall_mem_cons.2 ⟨?_, ih⟩
    rw [← Node.outline_role, outline]
    rfl

/-- The members have the names of the entries. -/
theorem EntriesAt.headings (h : EntriesAt n pos entries ms) (index fullStart : Nat) :
    (Member.ofElements index fullStart (ms.map (·.1)) (ms.map (·.2))).map (·.heading) =
      entries.map (·.member.heading) := by
  rw [Member.ofElements_headings]
  induction h with
  | nil => rfl
  | @cons pos e entries m ms outline start others ih =>
    refine congrArg₂ List.cons (Prod.ext ?_ ?_) ih
    · show (m.kind == _) = (e.tree.kind == _)
      rw [← Node.outline_kind, outline, ← Node.outline_kind e.tree]
      rfl
    · show m.memberName? = e.tree.memberName?
      rw [← Node.memberName?_outline, outline, ← Node.memberName?_outline e.tree]
      rfl

/-- A factory goes with the line break behind it and not with the one in front of it. -/
theorem EntriesAt.removals {text rest : List Char} (h : EntriesAt n pos entries ms)
    (place : StandsAt text pos (entriesText n entries ++ (n.text ++ rest))) (index : Nat) :
    ((Member.ofElements index pos (ms.map (·.1)) (ms.map (·.2))).filter
        (·.isGenerated c.generatedPrefix)).map (fun m => Edit.delete (m.removalSpan text)) =
      Piece.edits (pos + byteLength n.text) (entryPieces c n entries) := by
  induction h generalizing index with
  | nil => rfl
  | @cons pos e entries m ms outline start others ih =>
    let member : Member := {
      index, element := m, fullStart := pos
      separatorEnd := some (pos + byteLength (n.text ++ e.lines)) }
    have heading : member.heading = e.member.heading :=
      List.head_eq_of_cons_eq ((EntriesAt.cons outline start others).headings index pos)
    have generated : member.isGenerated c.generatedPrefix = e.isGenerated c :=
      Member.isGenerated_congr heading _
    rw [entriesText, List.flatMap_cons, ← entriesText, List.append_assoc] at place
    have edits := ih place.after (index + 1)
    have behind := place.after
    rw [behind_entries c] at behind
    rw [List.append_assoc] at place
    have begins : pos + byteLength n.text ≤ m.span.start := by
      rw [start, byteLength_append]
      omega
    have span := Member.removalSpan_between (m := member) place begins behind
    have length : pos + byteLength (n.text ++ e.lines) + byteLength n.text =
        pos + byteLength n.text + byteLength (e.lines ++ n.text) := by
      rw [byteLength_append, byteLength_append]
      omega
    have pieces : entryPieces c n (e :: entries) =
        ⟨e.lines ++ n.text, if e.isGenerated c then some [] else none⟩ ::
          entryPieces c n entries := rfl
    have members : Member.ofElements index pos (((m, member.separatorEnd) :: ms).map (·.1))
        (((m, member.separatorEnd) :: ms).map (·.2)) =
          member :: Member.ofElements (index + 1) member.fullStop (ms.map (·.1)) (ms.map (·.2)) := rfl
    have first : Edit.delete (member.removalSpan text) = .replace (.ofLength (pos + byteLength n.text)
        (byteLength (e.lines ++ n.text))) [] := by
      rw [span, Span.ofLength, ← length]
      rfl
    rw [pieces, Piece.edits_cons, ← length, ← edits, members, List.filter_cons, generated]
    cases e.isGenerated c with
    | true => exact congrArg (· :: _) first
    | false => rfl

theorem literalNode_members {span : Span} {flags : NodeFlags}
    (h : EntriesAt n pos entries ms) (role : Role) :
    ((literalNode span flags ms).inRole role).members =
      Member.ofElements 0 (span.start + 1) (ms.map (·.1)) (ms.map (·.2)) := by
  have children : ((literalNode span flags ms).inRole role).childrenIn .properties = ms.map (·.1) :=
    List.filter_eq_self.2 fun n hn => beq_iff_eq.2 (h.role n hn)
  rw [Node.members, children]
  rfl

/-- The members of the literal have the names of the entries. -/
theorem LiteralAt.headings {literal : Node} (h : g.LiteralAt pos literal) (role : Role) :
    (literal.inRole role).members.map (·.heading) = g.body.entries.map (·.member.heading) := by
  obtain ⟨flags, ms, entries, rfl⟩ := h
  rw [literalNode_members entries]
  exact entries.headings _ _

end GeneratedFile

/-- Without the factories. The lines that they stood on are gone, but not the line break behind the
opening brace. -/
def LiteralBody.cleared (c : Config) : LiteralBody → LiteralBody
  | bare => bare
  | members entries => members (entries.filter (!·.isGenerated c))

/-- With members put in behind the others, on lines of their own, if there are any to be put in. -/
def LiteralBody.added (body : LiteralBody) (entries : List Entry) : LiteralBody :=
  if entries.isEmpty then body else members (body.entries ++ entries)

/-- The names of the factories. -/
def LiteralBody.generatedNames (c : Config) (body : LiteralBody) : List String :=
  (body.entries.filter (·.isGenerated c)).filterMap (·.member.name?)

namespace GeneratedFile

variable {c : Config} {g : GeneratedFile} {n : NewLine} {pos : Nat} {entries : List Entry}
  {ms : List (Node × Option Nat)} {front tail : List Char} {literal : Node}

theorem LiteralAt.generatedNames (h : g.LiteralAt pos literal) (role : Role) :
    ((literal.inRole role).members.filter (·.isGenerated c.generatedPrefix)).filterMap (·.name?) =
      g.body.generatedNames c := by
  have headings : (literal.inRole role).members.map (·.heading) =
      (g.body.entries.map (·.member)).map (·.heading) := by
    rw [h.headings, List.map_map]
    rfl
  rw [Member.generatedNames_congr headings, List.filter_map, List.filterMap_map]
  rfl

/-- The file with its factories taken out. -/
def cleared (c : Config) (g : GeneratedFile) : GeneratedFile := { g with body := g.body.cleared c }

/-- The text around the members of a literal, which stays, and the members. -/
def clearedPieces (c : Config) (n : NewLine) (entries : List Entry) (front tail : List Char) :
    List Piece :=
  ⟨front ++ '\x7b' :: n.text, none⟩ :: (entryPieces c n entries ++ [⟨'\x7d' :: tail, none⟩])

theorem before_clearedPieces : Piece.before (clearedPieces c n entries front tail) =
    front ++ '\x7b' :: (entriesText n entries ++ (n.text ++ '\x7d' :: tail)) := by
  have inside := before_entryPieces c n entries
  rw [clearedPieces, Piece.before_cons, Piece.before_append, ← List.append_assoc (entriesText _ _),
    ← inside]
  simp

theorem after_clearedPieces : Piece.after (clearedPieces c n entries front tail) =
    front ++ '\x7b' :: (entriesText n (entries.filter (!·.isGenerated c)) ++
      (n.text ++ '\x7d' :: tail)) := by
  have inside := after_entryPieces c n entries
  rw [clearedPieces, Piece.after_cons, Piece.after_append, ← List.append_assoc (entriesText _ _),
    ← inside]
  simp [Piece.result]

theorem edits_clearedPieces : Piece.edits 0 (clearedPieces c n entries front tail) =
    Piece.edits (byteLength front + 1 + byteLength n.text) (entryPieces c n entries) := by
  have start : byteLength (front ++ '\x7b' :: n.text) = byteLength front + 1 + byteLength n.text := by
    rw [byteLength_append, byteLength_cons, Nat.add_assoc]
    rfl
  rw [clearedPieces, Piece.edits_cons, Piece.edits_append, Nat.zero_add, start]
  exact List.append_nil _

theorem literalText_of_members (body : g.body = .members entries) :
    g.literalText = '\x7b' :: (entriesText g.newLine entries ++ (g.newLine.text ++ ['\x7d'])) := by
  rw [literalText, body]
  rfl

theorem LiteralAt.clearGenerated (h : g.LiteralAt (byteLength front) literal) (role : Role)
    (tail : List Char) :
    (literal.inRole role).clearGenerated (front ++ (g.literalText ++ tail)) c.generatedPrefix =
      .ok {
        text := front ++ ((g.cleared c).literalText ++ tail)
        names := g.body.generatedNames c } := by
  have names := h.generatedNames (c := c) role
  obtain ⟨flags, ms, entriesAt, rfl⟩ := h
  refine Node.clearGenerated_eq_ok.2 ⟨?_, names.symm⟩
  rw [Member.deletions, literalNode_members entriesAt]
  cases body : g.body with
  | bare =>
    have cleared : g.cleared c = g := by
      rw [GeneratedFile.cleared, body, LiteralBody.cleared, ← body]
    rw [body] at entriesAt
    cases entriesAt
    rw [cleared]
    exact Edit.applyAll_nil _
  | members entries =>
    have clearedBody : (g.cleared c).body = .members (entries.filter (!·.isGenerated c)) := by
      rw [GeneratedFile.cleared, body]
      rfl
    have before : front ++ (g.literalText ++ tail) =
        Piece.before (clearedPieces c g.newLine entries front tail) := by
      rw [before_clearedPieces, literalText_of_members body]
      simp
    have after : front ++ ((g.cleared c).literalText ++ tail) =
        Piece.after (clearedPieces c g.newLine entries front tail) := by
      rw [after_clearedPieces, literalText_of_members clearedBody]
      simp [GeneratedFile.cleared]
    have inside : StandsAt (Piece.before (clearedPieces c g.newLine entries front tail))
        (byteLength front + 1) (entriesText g.newLine entries ++
          (g.newLine.text ++ '\x7d' :: tail)) := by
      rw [before_clearedPieces]
      exact ⟨front ++ ['\x7b'], by simp, by rw [byteLength_append]; rfl⟩
    rw [body] at entriesAt
    have edits := entriesAt.removals (c := c) inside 0
    have applied := Piece.applyAll_edits (clearedPieces c g.newLine entries front tail)
    rw [edits_clearedPieces] at applied
    rw [before, after, Span.ofLength, edits]
    exact applied

/-! ## The layout of factories -/

/-- How factories are laid out in the file: like its first member. -/
def layout (c : Config) (g : GeneratedFile) : MemberLayout :=
  let member := (g.body.entries.head?.bind Entry.indentation?).getD c.indent.toList
  { outer := [], member
    unit := if member.isEmpty then c.indent.toList else member
    newLine := g.newLine.text }

theorem layout_blank (printable : c.Printable) (g : GeneratedFile) : (g.layout c).Blank := by
  have member : ∀ a ∈ (g.layout c).member, CharClass.isBlank a = true := by
    show ∀ a ∈ (g.body.entries.head?.bind Entry.indentation?).getD c.indent.toList, _
    cases found : g.body.entries.head?.bind Entry.indentation? with
    | none => exact printable.indent
    | some line =>
      obtain ⟨e, -, hline⟩ := Option.bind_eq_some_iff.1 found
      unfold Entry.indentation? indentationBefore? at hline
      dsimp only at hline
      split at hline
      · next plain =>
        cases hline
        exact fun a ha => isBlank_of_isTabOrSpace (List.all_eq_true.1 plain a ha)
      · cases hline
  refine ⟨nofun, member, ?_, g.newLine, rfl⟩
  show ∀ a ∈ if (g.layout c).member.isEmpty then c.indent.toList else (g.layout c).member, _
  split
  · exact printable.indent
  · exact member

theorem text_eq_front (c : Config) (g : GeneratedFile) :
    g.text c = g.literalFront c ++ g.tailText := by
  unfold text literalFront
  simp

theorem wholeLines_front (g : GeneratedFile) :
    WholeLines (importLines g.newLine.text g.imports ++ g.newLine.repeated g.gap) := by
  have gap : WholeLines ((List.replicate g.gap g.newLine.text).flatMap id) :=
    .flatMap fun line hline => by
      rw [List.eq_of_mem_replicate hline]
      exact .newLine [] g.newLine
  rw [List.flatMap_id] at gap
  exact (WholeLines.flatMap fun i _ => .newLine _ _).append gap

theorem head_oneLine (isName : IsName c.targetConst) : OneLine (head c ++ [' ']) := by
  unfold head
  exact (OneLine.append (by decide) (OneLine.append (by decide) (isName.word.oneLine.append
    (by decide)))).append (by decide)

/-- The constant begins at the beginning of its line. -/
theorem lineIndentation_eq (isName : IsName c.targetConst) (rest : List Char) :
    lineIndentation (g.literalFront c ++ rest) (byteLength (g.literalFront c)) = [] := by
  have lines : g.literalFront c =
      importLines g.newLine.text g.imports ++ g.newLine.repeated g.gap ++ (head c ++ [' ']) := by
    unfold literalFront
    simp only [List.append_assoc]
  obtain ⟨more, begins⟩ : ∃ more, head c ++ [' '] = 'e' :: more := ⟨_, rfl⟩
  rw [lineIndentation, lines, lineBefore_eq g.wholeLines_front (head_oneLine isName), begins]
  rfl

theorem newLineOf_repeated {line : List Char} (oneLine : OneLine line) {n : NewLine} {count : Nat}
    (breaks : n = .lf ∨ 0 < count) : newLineOf (line ++ n.repeated count) = n := by
  cases count with
  | zero =>
    obtain rfl : n = .lf := breaks.resolve_right (Nat.lt_irrefl 0)
    exact newLineOf_oneLine (oneLine.append (List.forall_mem_nil _))
  | succ count => exact newLineOf_line oneLine n _

/-- The first line that is broken from the constant on is that of the brace or the last one. -/
theorem Proper.newLineOf_tail (proper : g.Proper) {line : List Char} (oneLine : OneLine line) :
    FactorySync.newLineOf (line ++ g.tailText) = g.newLine := by
  have opened : OneLine (line ++ ['\x7b']) := oneLine.append (by decide)
  unfold tailText
  cases body : g.body with
  | bare =>
    have literal : g.literalText = ['\x7b', '\x7d'] := by
      rw [literalText, body]
      rfl
    have closed : OneLine (line ++ ['\x7b', '\x7d'] ++ " as const;".toList) :=
      (oneLine.append (by decide)).append (by decide)
    rw [literal, ← List.append_assoc, ← List.append_assoc]
    exact newLineOf_repeated closed proper.breaks
  | members entries =>
    obtain ⟨rest, inside⟩ : ∃ rest, entriesText g.newLine entries ++ (g.newLine.text ++ ['\x7d']) =
        g.newLine.text ++ rest := by
      cases entries with
      | nil => exact ⟨_, rfl⟩
      | cons e entries => exact ⟨_, by simp only [entriesText, List.flatMap_cons, List.append_assoc]; rfl⟩
    have broken : line ++ (g.literalText ++ (" as const;".toList ++ g.newLine.repeated g.ending)) =
        line ++ ['\x7b'] ++
          (g.newLine.text ++ (rest ++ (" as const;".toList ++ g.newLine.repeated g.ending))) := by
      rw [literalText_of_members body, inside]
      simp only [List.cons_append, List.append_assoc, List.nil_append]
    rw [broken]
    exact newLineOf_line opened g.newLine _

/-- The line breaks of a generated file are found. -/
theorem Proper.newLineOf (proper : g.Proper) (isName : IsName c.targetConst) :
    newLineOf (g.text c) = g.newLine := by
  rw [text_eq_front]
  unfold literalFront
  cases imports : g.imports with
  | nil =>
    cases g.gap with
    | zero =>
      show FactorySync.newLineOf (([] ++ ([] ++ (head c ++ [' ']))) ++ _) = _
      exact proper.newLineOf_tail (head_oneLine isName)
    | succ gap =>
      have first : g.newLine.repeated (gap + 1) = g.newLine.text ++ g.newLine.repeated gap := rfl
      rw [first, importLines, List.flatMap_nil]
      simp only [List.append_assoc]
      exact newLineOf_line (List.forall_mem_nil _) g.newLine _
  | cons i imports' =>
    obtain ⟨readable, -, line⟩ := proper.imports i (by rw [imports]; exact List.mem_cons_self)
    rw [importLines, List.flatMap_cons]
    simp only [List.append_assoc]
    exact newLineOf_line (readable.oneLine i.1 line) g.newLine _

/-- The literal shows how far its first member is indented. -/
theorem LiteralAt.indentation (h : g.LiteralAt (byteLength front) literal) (role : Role)
    (tail : List Char) :
    ((literal.inRole role).child? .properties).bind
        (indentationBefore? (front ++ (g.literalText ++ tail)) ·.span.start) =
      g.body.entries.head?.bind Entry.indentation? := by
  obtain ⟨flags, ms, entriesAt, rfl⟩ := h
  rw [literalText]
  generalize g.body.entries = entries at entriesAt ⊢
  cases entriesAt with
  | nil => rfl
  | @cons _ e entries m ms outline start others =>
    have isFirst (span : Span) (stop : Option Nat) :
        ((literalNode span flags ((m, stop) :: ms)).inRole role).child? .properties = some m := by
      refine List.find?_cons_of_pos (beq_iff_eq.2 ?_)
      rw [← Node.outline_role, outline]
      rfl
    have lines : front ++ ('\x7b' :: (entriesText g.newLine (e :: entries) ++
        (g.body.lastBreak g.newLine ++ ['\x7d'])) ++ tail) =
          (front ++ ['\x7b']) ++ g.newLine.text ++ e.lead ++ (e.code ++ (',' ::
            (entriesText g.newLine entries ++ (g.body.lastBreak g.newLine ++ '\x7d' :: tail)))) := by
      simp [entriesText, Entry.lines]
    have place : m.span.start = byteLength ((front ++ ['\x7b']) ++ g.newLine.text ++ e.lead) := by
      rw [start, List.append_assoc _ g.newLine.text, byteLength_append (front ++ _),
        byteLength_append front]
      rfl
    rw [isFirst, Option.bind_some, place, lines, indentationBefore?, lineBefore_lines]
    rfl

/-- The layout that is asked for is that of the file. -/
theorem LiteralAt.ofLiteral_layout (h : g.LiteralAt (byteLength (g.literalFront c)) literal)
    (proper : g.Proper) (isName : IsName c.targetConst) (role : Role) :
    MemberLayout.ofLiteral (g.text c) c.indent.toList (literal.inRole role) = g.layout c := by
  have newLine := proper.newLineOf isName
  have outer := lineIndentation_eq (g := g) isName g.tailText
  have start : (literal.inRole role).span.start = byteLength (g.literalFront c) := by
    obtain ⟨flags, ms, -, rfl⟩ := id h
    rfl
  have member := h.indentation role (" as const;".toList ++ g.newLine.repeated g.ending)
  rw [text_eq_front] at newLine
  rw [← tailText] at member
  rw [text_eq_front, MemberLayout.ofLiteral, member, start, outer, newLine, layout]
  rfl

/-! ## Inserting -/

/-- The file with factories put in behind its members. -/
def filled (c : Config) (g : GeneratedFile) (records : List StructureRecord) : GeneratedFile :=
  { g with body := g.body.added (records.map (.ofFactory c (g.layout c))) }

theorem EntriesAt.getLast? (h : EntriesAt n pos entries ms) (some : entries ≠ []) (index : Nat) :
    ∃ last, (Member.ofElements index pos (ms.map (·.1)) (ms.map (·.2))).getLast? = Option.some last ∧
      last.separatorEnd = Option.some (pos + byteLength (entriesText n entries)) := by
  induction h generalizing index with
  | nil => exact absurd rfl some
  | @cons pos e entries m ms outline start others ih =>
    cases others with
    | nil =>
      refine ⟨_, rfl, ?_⟩
      rw [entriesText, List.flatMap_singleton]
      rfl
    | cons outline' start' others' =>
      obtain ⟨last, isLast, stop⟩ := ih (List.cons_ne_nil _ _) (index + 1)
      refine ⟨last, isLast, ?_⟩
      rw [stop, Nat.add_assoc, ← byteLength_append]
      rfl

/-- A line break is no comment. -/
theorem afterLineComment_newLine {text rest : List Char} {n : NewLine}
    (place : StandsAt text pos (n.text ++ rest)) : afterLineComment text pos = pos := by
  rw [afterLineComment, place.dropBytes]
  cases n <;> rfl

/-- What is around factories that are put into a literal without members. A line break is added behind
them only if there is none. -/
theorem LiteralAt.insertion_first (h : g.LiteralAt (byteLength front) literal) (role : Role)
    (empty : g.body.entries = []) (tail : List Char) :
    (literal.inRole role).insertionFront (front ++ (g.literalText ++ tail)) = front ++ ['\x7b'] ∧
      (literal.inRole role).insertionBack (front ++ (g.literalText ++ tail)) (g.layout c) =
        g.newLine.text ++ '\x7d' :: tail := by
  obtain ⟨flags, ms, entriesAt, rfl⟩ := h
  have braces : g.literalText = '\x7b' :: (g.body.lastBreak g.newLine ++ ['\x7d']) := by
    rw [literalText, empty]
    rfl
  rw [empty] at entriesAt
  cases entriesAt
  have noMember : ((literalNode (.ofLength (byteLength front) (byteLength g.literalText)) flags
      []).inRole role).members.getLast? = none := rfl
  have opens : ((literalNode (.ofLength (byteLength front) (byteLength g.literalText)) flags
      []).inRole role).openBraceEnd = byteLength front + 1 := rfl
  have length : byteLength front + byteLength g.literalText - 1 =
      byteLength front + 1 + byteLength (g.body.lastBreak g.newLine) := by
    rw [braces, byteLength_cons, byteLength_append]
    show byteLength front + (1 + (byteLength (g.body.lastBreak g.newLine) + 1)) - 1 = _
    omega
  have text : front ++ (g.literalText ++ tail) =
      (front ++ ['\x7b']) ++ (g.body.lastBreak g.newLine ++ '\x7d' :: tail) := by
    rw [braces]
    simp
  have size : byteLength (front ++ ['\x7b']) = byteLength front + 1 := by
    rw [byteLength_append]
    rfl
  have opened : StandsAt (front ++ (g.literalText ++ tail)) (byteLength front + 1)
      (g.body.lastBreak g.newLine ++ '\x7d' :: tail) := ⟨_, text, size⟩
  have closes : ((literalNode (.ofLength (byteLength front) (byteLength g.literalText)) flags
      []).inRole role).closeBraceStart =
        byteLength front + 1 + byteLength (g.body.lastBreak g.newLine) := length
  have front : takeBytes (byteLength front + 1) (front ++ (g.literalText ++ tail)) =
      front ++ ['\x7b'] := by
    rw [text, ← size, takeBytes_append]
  rw [Node.insertionFront, Node.insertionBack, noMember]
  simp only [closes, opens, opened.slice, opened.after.dropBytes, opened.dropBytes, front, true_and]
  cases g.body with
  | bare =>
    have outer : (g.layout c).newLine ++ (g.layout c).outer ++ '\x7d' :: tail =
        g.newLine.text ++ '\x7d' :: tail := by simp [layout]
    exact outer
  | members entries => cases g.newLine <;> rfl

/-- Other factories come to stand behind the comma of the last member. -/
theorem LiteralAt.insertion_behind (h : g.LiteralAt (byteLength front) literal) (role : Role)
    (body : g.body = .members entries) (some : entries ≠ []) (l : MemberLayout) (tail : List Char) :
    (literal.inRole role).insertionFront (front ++ (g.literalText ++ tail)) =
        front ++ '\x7b' :: entriesText g.newLine entries ∧
      (literal.inRole role).insertionBack (front ++ (g.literalText ++ tail)) l =
        g.newLine.text ++ '\x7d' :: tail := by
  obtain ⟨flags, ms, entriesAt, rfl⟩ := h
  have text : front ++ (g.literalText ++ tail) =
      (front ++ '\x7b' :: entriesText g.newLine entries) ++ (g.newLine.text ++ '\x7d' :: tail) := by
    rw [literalText_of_members body]
    simp
  have size : byteLength (front ++ '\x7b' :: entriesText g.newLine entries) =
      byteLength front + 1 + byteLength (entriesText g.newLine entries) := by
    rw [byteLength_append, byteLength_cons, Nat.add_assoc]
    rfl
  have place : StandsAt (front ++ (g.literalText ++ tail))
      (byteLength front + 1 + byteLength (entriesText g.newLine entries))
      (g.newLine.text ++ '\x7d' :: tail) := ⟨_, text, size⟩
  have entries' : g.body.entries = entries := by rw [body]; rfl
  rw [entries'] at entriesAt
  obtain ⟨last, isLast, comma⟩ := entriesAt.getLast? some 0
  have members : ((literalNode (.ofLength (byteLength front) (byteLength g.literalText)) flags
      ms).inRole role).members.getLast? = Option.some last := by
    rw [literalNode_members entriesAt]
    exact isLast
  have stop : last.fullStop = byteLength front + 1 + byteLength (entriesText g.newLine entries) := by
    rw [Member.fullStop, comma, Option.getD_some]
  rw [Node.insertionFront, Node.insertionBack, members]
  dsimp only
  rw [stop, afterLineComment_newLine place, place.dropBytes, comma, sliceBytes, Nat.sub_self,
    takeBytes_zero, text, ← size, takeBytes_append]
  exact ⟨List.append_nil _, rfl⟩

theorem filled_literalText (printable : c.Printable) {records : List StructureRecord}
    (plain : ∀ r ∈ records, r.Plain) (some : records ≠ []) :
    (g.filled c records).literalText = '\x7b' :: (entriesText g.newLine g.body.entries ++
      ((records.map (Factory.ofRecord c)).flatMap (g.layout c).factoryText ++
        (g.newLine.text ++ ['\x7d']))) := by
  have texts : entriesText g.newLine (records.map (.ofFactory c (g.layout c))) =
      (records.map (Factory.ofRecord c)).flatMap (g.layout c).factoryText := by
    rw [entriesText, List.flatMap_map, List.flatMap_map]
    exact List.flatMap_congr fun r hr =>
      Entry.ofFactory_lines (g.layout_blank printable) printable.toPlain (plain r hr)
  have body : (g.filled c records).body =
      .members (g.body.entries ++ records.map (.ofFactory c (g.layout c))) := by
    rw [filled, LiteralBody.added, if_neg (by simpa using some)]
  have newLine : (g.filled c records).newLine = g.newLine := rfl
  rw [literalText_of_members body, newLine, entriesText, List.flatMap_append, ← entriesText,
    ← entriesText, texts, List.append_assoc]

/-- Factories are put in behind the last member, or behind the opening brace. -/
theorem LiteralAt.insertFactories (h : g.LiteralAt (byteLength front) literal) (role : Role)
    (printable : c.Printable) {r s : Parse.Reading} (reads : Parse.Reads r (literal.inRole role) s)
    (sound : r.Sound (front ++ (g.literalText ++ tail)))
    (layout : MemberLayout.ofLiteral (front ++ (g.literalText ++ tail)) c.indent.toList
      (literal.inRole role) = g.layout c) {records : List StructureRecord}
    (plain : ∀ r ∈ records, r.Plain) :
    (literal.inRole role).insertFactories (front ++ (g.literalText ++ tail))
        (records.map (Factory.ofRecord c)) c.indent =
      .ok {
        text := front ++ ((g.filled c records).literalText ++ tail)
        names := records.map fun r => (Factory.ofRecord c r).name } := by
  have around : (literal.inRole role).insertionFront (front ++ (g.literalText ++ tail)) =
        front ++ '\x7b' :: entriesText g.newLine g.body.entries ∧
      (literal.inRole role).insertionBack (front ++ (g.literalText ++ tail)) (g.layout c) =
        g.newLine.text ++ '\x7d' :: tail := by
    by_cases empty : g.body.entries = []
    · rw [empty]
      exact h.insertion_first role empty tail
    · have body : g.body = .members g.body.entries := by
        cases body : g.body with
        | bare => exact absurd (by rw [body]; rfl) empty
        | members entries => rfl
      exact h.insertion_behind role body empty _ tail
  obtain ⟨before, behind⟩ := around
  have isLiteral : (literal.inRole role).kind = .objectLiteralExpression := by
    obtain ⟨flags, ms, -, rfl⟩ := h
    rfl
  rw [Node.insertFactories_text reads sound isLiteral]
  dsimp only
  rw [layout, before, behind, List.map_map]
  cases records with
  | nil => rfl
  | cons first others =>
    rw [filled_literalText printable plain (List.cons_ne_nil first others)]
    simp [Function.comp_def]

end GeneratedFile
end FactorySync
