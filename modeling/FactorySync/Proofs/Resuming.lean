import FactorySync.Proofs.Insertion
import FactorySync.Proofs.FactoryWords

/-!
# Reading the inserted factories

Wherever the members of an object literal have been read up to the place where factories are put in,
what follows is one method for each factory (`Node.resumes`).
-/

namespace FactorySync

open Parse

/-! ## In front of the closing brace -/

/-- Behind trivia the text goes on with a closing brace. -/
def ClosesNext (cs : List Char) : Prop :=
  ∃ ds, cs.drop (Trivia.read .between cs).size = '\x7d' :: ds

theorem ClosesNext.gap {gap cs : List Char} {b : Bool} (h : ClosesNext cs)
    (passes : Trivia.Passes gap b) : ClosesNext (gap ++ cs) := by
  obtain ⟨ds, h⟩ := h
  refine ⟨ds, ?_⟩
  rw [passes cs]
  simpa [Nat.add_comm _ gap.length] using h

/-- Behind a line comment, if the line or the text is over there. -/
theorem ClosesNext.of_remark {remark cs : List Char} (h : ClosesNext (remark ++ cs))
    (isRemark : Trivia.IsRemark remark)
    (behind : ∀ c ∈ cs.head?, CharClass.isLineBreak c = true) : ClosesNext cs := by
  obtain ⟨ds, h⟩ := h
  refine ⟨ds, ?_⟩
  rw [Trivia.read_remark isRemark behind] at h
  simpa [Nat.add_comm _ remark.length] using h

/-- Where the text closes, the next token is the closing brace. -/
theorem ClosesNext.next {s : Scanner} (h : ClosesNext s.rest) :
    s.next.token.kind = .closeBrace := by
  obtain ⟨ds, h⟩ := h
  have ahead : s.ahead = '\x7d' :: ds := by
    have noHash : Trivia.ofChars (s.token.stop == 0) s.rest = Trivia.read .between s.rest := by
      cases hrest : s.rest with
      | nil => rw [hrest] at h; cases h
      | cons c cs =>
        refine Trivia.ofChars_of_ne ?_
        rintro rfl
        rw [hrest] at h
        cases h
    rw [Scanner.ahead, noHash, h]
  obtain ⟨before, flags, -, next⟩ := Scanner.next_of_ahead_cons ahead
  rw [next, Scanner.take_kind]
  rfl

/-- A row of words in front of a closing brace. -/
theorem Spells.faces_closing {tail : List Char} {ws : List Word} {s : Scanner}
    (h : Spells tail s.rest ws) (closes : ClosesNext tail) :
    ∃ more, (Word.first more).kind = .closeBrace ∧ s.next.Faces false (ws ++ more) := by
  refine h.faces_more (P := fun ws => (Word.first ws).kind = .closeBrace) nofun fun t n rest _ => ?_
  have blanks : Trivia.Passes (List.replicate n ' ') false :=
    .blanks fun c hc => by rw [List.eq_of_mem_replicate hc]; rfl
  have closes : ClosesNext t.rest := rest ▸ closes.gap blanks
  obtain ⟨ws, faces⟩ := t.next.exists_faces
  exact ⟨t.next.token.word :: ws, closes.next, faces⟩

theorem Parse.Reading.Sound.closeBrace {text : List Char} {r : Reading} (sound : r.Sound text)
    (closes : r.token.kind = .closeBrace) : ∃ ds, r.scanner.fromToken = '\x7d' :: ds := by
  have source : r.scanner.token.source = ['\x7d'] := by
    simpa using sound.scanner.spelled "\x7d" (by rw [show r.scanner.token.kind = _ from closes]; rfl)
  exact ⟨r.scanner.rest, by rw [Scanner.fromToken, source]; rfl⟩

theorem Parse.Reading.Sound.closesNext {text : List Char} {r : Reading} (sound : r.Sound text)
    (started : 0 < r.lastEnd) (closes : r.token.kind = .closeBrace) :
    ClosesNext (dropBytes r.lastEnd text) := by
  obtain ⟨gap, place, size⟩ := sound.gap
  obtain ⟨ds, brace⟩ := sound.closeBrace closes
  rw [beq_false_of_ne (Nat.ne_of_gt started), Trivia.ofChars_false] at size
  exact ⟨ds, by rw [place.dropBytes, size, List.drop_left, brace]⟩

namespace Parse

variable {r s : Reading} {n : Node} {ns : List Node} {ends : List (Option Nat)}

/-! ## Members of which the words are known -/

theorem Parsed.row {ws rest : List Word} {P : Node → Prop} (h : Parsed r n s) (valid : r.Valid)
    (faces : r.scanner.Faces false ws)
    (reads : ∀ c : Context, c.trusted = true → Parser.objectMember.ReadsRow c ws rest P) :
    (∃ m, n = m.inRole .properties ∧ P m) ∧ s.scanner.Faces false rest := by
  obtain ⟨k, before, after, member, hrun, clean, rfl, rfl, rfl⟩ := h.found
  have faces' : before.Faces
      { inExtends := before.inExtends, depth := before.depth, clean := false, trusted := true } ws :=
    ⟨valid, faces, nofun, rfl, rfl, trivial⟩
  obtain ⟨found, left⟩ := reads _ rfl faces' hrun fun _ => clean
  exact ⟨⟨member, rfl, found⟩, left.scanner⟩

/-- Items with a comma behind each, in front of the closing brace, are one member each. -/
theorem ReadsMembers.rows {β : Type} {words : β → List Word} {R : β → Node → Prop} {items : List β}
    {more : List Word} (h : ReadsMembers r ns ends s) (valid : r.Valid)
    (closed : s.token.kind = .closeBrace) (ended : (Word.first more).kind = .closeBrace)
    (reads : ∀ b ∈ items, ∀ ws,
      (Word.first (words b ++ .mark .comma ',' :: ws)).kind ≠ .closeBrace ∧
        ∀ c : Context, c.trusted = true → Parser.objectMember.ReadsRow c
          (words b ++ .mark .comma ',' :: ws) (.mark .comma ',' :: ws) (R b))
    (faces : r.scanner.Faces false (items.flatMap (fun b => words b ++ [.mark .comma ',']) ++ more)) :
    List.Forall₂ (fun b n => ∃ m, n = m.inRole .properties ∧ R b m) items ns := by
  induction items generalizing r ns ends with
  | nil =>
    have stops : r.token.kind = .closeBrace := faces.token.kind.trans ended
    cases h with
    | nil => exact .nil
    | last parsed =>
      have goesOn := parsed.begins
      rw [stops] at goesOn
      cases goesOn
    | cons parsed =>
      have goesOn := parsed.begins
      rw [stops] at goesOn
      cases goesOn
  | cons b items ih =>
    obtain ⟨first, others⟩ := List.forall_mem_cons.1 reads
    rw [List.flatMap_cons, List.append_assoc, List.append_assoc] at faces
    obtain ⟨begins, first⟩ := first (items.flatMap (fun b => words b ++ [.mark .comma ',']) ++ more)
    cases h with
    | nil => exact absurd (faces.token.kind.symm.trans closed) begins
    | last parsed =>
      obtain ⟨-, behind⟩ := parsed.row valid faces first
      have comma : s.token.kind = .comma := behind.token.kind
      rw [comma] at closed
      cases closed
    | cons parsed member comma rest =>
      obtain ⟨found, behind⟩ := parsed.row valid faces first
      exact .cons found (ih rest ((Step.advance _).run.valid (member.run.valid valid)) others
        behind.next)

/-! ## Where the members end -/

/-- The last member ends, with its comma, where the reading of members ends. -/
theorem ReadsMembers.lastEnd_eq (h : ReadsMembers r ns ends s) (index : Nat) :
    s.lastEnd = ((Member.ofElements index r.lastEnd ns ends).getLast?.map
      Member.fullStop).getD r.lastEnd := by
  induction ns generalizing r ends index with
  | nil =>
    cases h
    rfl
  | cons n ns ih =>
    cases h with
    | last parsed member => exact (member.stop_eq parsed.kind).symm
    | @cons _ u _ _ _ _ _ _ _ rest =>
      rw [ih rest (index + 1), Member.ofElements, List.getLast?_cons, Option.map_some,
        Option.getD_some]
      exact Option.getD_map Member.fullStop ⟨index, n, r.lastEnd, some u.token.stop⟩ _

/-- The members up to one with a comma, and those that follow it. -/
theorem ReadsMembers.behind {text : List Char} {p : Nat} {m : Member} {index start : Nat}
    (h : ReadsMembers r ns ends s) (sound : r.Sound text)
    (hm : m ∈ Member.ofElements index start ns ends) (separator : m.separatorEnd = some p) :
    ∃ t old new more, ns = old ++ new ∧ (∀ n ∈ old, n.span.stop ≤ p) ∧ Run r t ∧
      t.token.stop = p ∧ ReadsMembers t.advance new more s := by
  induction ns generalizing r ends index start with
  | nil => cases hm
  | cons n ns ih =>
    cases h with
    | last =>
      obtain rfl := List.mem_singleton.1 hm
      cases separator
    | @cons _ u _ _ _ _ _ member comma rest =>
      have last := member.sound sound
      have before : n.span.stop ≤ u.token.stop :=
        Nat.le_trans member.stop_le (Nat.le_trans last.lastEnd_le_here u.here_le_stop)
      rcases List.mem_cons.1 hm with rfl | hm
      · obtain rfl : u.token.stop = p := Option.some_inj.1 separator
        exact ⟨u, [n], ns, _, rfl, by simpa using before, member.run, rfl, rest⟩
      · obtain ⟨t, old, new, more, rfl, stops, run, stop, others⟩ := ih rest last.advance hm
        have reached := run.lastEnd_le last.advance
        have within := (run.sound last.advance).lastEnd_le_here
        have stop_le := t.here_le_stop
        refine ⟨t, n :: old, new, more, rfl, List.forall_mem_cons.2 ⟨?_, stops⟩,
          (member.run.trans (Step.advance u).run).trans run, stop, others⟩
        rw [Reading.advance_lastEnd] at reached
        omega

end Parse

/-! ## The comment behind the last member -/

/-- What is passed over is nothing, or a line comment if that has no line break in it. -/
theorem afterLineComment_remark {text : List Char} {pos : Nat} (h : isBoundary pos text = true)
    (line : ∀ c ∈ sliceBytes pos (afterLineComment text pos) text, CharClass.isLineBreak c = false) :
    sliceBytes pos (afterLineComment text pos) text = [] ∨
      Trivia.IsRemark (sliceBytes pos (afterLineComment text pos) text) ∧
      ∀ c ∈ (dropBytes (afterLineComment text pos) text).head?, CharClass.isLineBreak c = true := by
  generalize hline : (dropBytes pos text).takeWhile (fun c => c ≠ '\r' ∧ c ≠ '\n') = remark
  unfold afterLineComment at line ⊢
  dsimp only at line ⊢
  rw [hline] at line ⊢
  split
  · next isComment =>
    rw [if_pos isComment] at line
    have place := StandsAt.of_boundary h
    rw [← List.takeWhile_append_dropWhile (p := fun c => decide (c ≠ '\r' ∧ c ≠ '\n'))
      (l := dropBytes pos text), hline] at place
    rw [place.slice] at line ⊢
    rw [place.after.dropBytes]
    refine .inr ⟨.inr ?_, fun c hc => ?_⟩
    · obtain ⟨body, hbody⟩ := List.isPrefixOf_iff_prefix.1 isComment
      have whole := List.takeWhile_append_dropWhile (p := isTabOrSpace) (l := remark)
      rw [← hbody] at whole
      refine ⟨_, body, whole.symm, fun c hc => ?_, fun c hc => line c ?_⟩
      · exact isBlank_of_isTabOrSpace (List.all_eq_true.1 List.all_takeWhile c hc)
      · rw [← whole]
        simp [hc]
    · have stops := List.head?_dropWhile_not (fun c => decide (c ≠ '\r' ∧ c ≠ '\n'))
        (dropBytes pos text)
      rw [Option.mem_def.1 hc] at stops
      have isBreak : c = '\r' ∨ c = '\n' := by simpa [Decidable.or_iff_not_imp_left] using stops
      rcases isBreak with rfl | rfl <;> rfl
  · have place : StandsAt text pos ([] ++ dropBytes pos text) := .of_boundary h
    exact .inl place.slice

namespace Node

variable {text : List Char} {r s : Reading} {literal : Node}

/-- Where factories are put in: behind the members, or behind the opening brace if there are none. -/
def insertionPlace (literal : Node) : Nat :=
  (literal.members.getLast?.map Member.fullStop).getD literal.openBraceEnd

theorem closesNext (h : Reads r literal s) (sound : r.Sound text)
    (isLiteral : literal.kind = .objectLiteralExpression) :
    ClosesNext (dropBytes literal.insertionPlace text) := by
  obtain ⟨last, ends, members, started, hopen, -, hmembers, closed⟩ := literal_read h sound isLiteral
  have reached := members.run.lastEnd_le sound.advance
  rw [insertionPlace, hmembers, hopen, ← members.lastEnd_eq 0]
  exact (members.run.sound sound.advance).closesNext (by omega) closed

/-- The closing brace stands where it should. -/
theorem closeBrace (h : Reads r literal s) (sound : r.Sound text)
    (isLiteral : literal.kind = .objectLiteralExpression) :
    ClosesNext (dropBytes literal.closeBraceStart text) := by
  obtain ⟨last, ends, members, -, -, hclose, -, closed⟩ := literal_read h sound isLiteral
  have last_sound := members.run.sound sound.advance
  obtain ⟨ds, brace⟩ := last_sound.closeBrace closed
  have place : dropBytes last.here text = last.scanner.fromToken := last_sound.scanner.place.dropBytes
  exact ⟨ds, by rw [hclose, place, brace]; rfl⟩

/-- The literal has been read up to an offset, behind its opening brace or the comma of a member. -/
def ReadsTo (literal : Node) (pos : Nat) : Prop :=
  literal.openBraceEnd = pos ∨ ∃ m ∈ literal.members, m.separatorEnd = some pos

instance (literal : Node) (pos : Nat) : Decidable (literal.ReadsTo pos) :=
  inferInstanceAs (Decidable (_ ∨ ∃ m ∈ literal.members, m.separatorEnd = some pos))

/-- Behind the offset there is one method for each factory, and nothing else. -/
theorem resumes {c : Config} {l : MemberLayout} {records : List StructureRecord}
    {front remark tail : List Char} (h : Reads r literal s) (sound : r.Sound text)
    (isLiteral : literal.kind = .objectLiteralExpression) (blank : l.Blank) (config : c.Plain)
    (some : records ≠ []) (plain : ∀ r ∈ records, r.Plain) (isRemark : Trivia.IsRemark remark)
    (closes : ClosesNext tail)
    (text_eq : text = front ++ (remark ++
      (records.flatMap (fun r => l.factoryText (.ofRecord c r)) ++ tail)))
    (readsTo : literal.ReadsTo (byteLength front)) :
    ∃ old new, literal.children = old ++ new ∧ (∀ n ∈ old, n.span.stop ≤ byteLength front) ∧
      List.Forall₂ (fun r n => ∃ flags, n.unplaced =
        ((FactoryTerm.ofRecord c r).tree flags).inRole .properties) records new := by
  obtain ⟨last, ends, members, -, hopen, -, hmembers, closed⟩ := literal_read h sound isLiteral
  obtain ⟨t, old, new, more, children, stops, run, stop, others⟩ :
      ∃ t old new more, literal.children = old ++ new ∧
        (∀ n ∈ old, n.span.stop ≤ byteLength front) ∧ Run r t ∧
        t.token.stop = byteLength front ∧ ReadsMembers t.advance new more last := by
    rcases readsTo with opened | ⟨m, hm, separator⟩
    · exact ⟨r, [], _, ends, rfl, nofun, .refl r, hopen.symm.trans opened, members⟩
    · rw [hmembers] at hm
      obtain ⟨t, old, new, more, children, stops, run, stop, others⟩ :=
        members.behind sound.advance hm separator
      exact ⟨t, old, new, more, children, stops, (Step.advance r).run.trans run, stop, others⟩
  have sound' := run.sound sound
  have rest : t.scanner.rest = remark ++
      (records.flatMap (fun r => l.factoryText (.ofRecord c r)) ++ tail) := by
    have place : StandsAt text t.token.stop t.scanner.rest := sound'.scanner.rest
    rw [stop] at place
    exact place.unique ⟨front, text_eq, rfl⟩
  have spells : Spells tail t.scanner.rest
      (records.flatMap fun r => (FactoryTerm.ofRecord c r).words ++ [.mark .comma ',']) :=
    rest ▸ FactoryTerm.remark_spells blank config some plain isRemark
  obtain ⟨words, ended, faces⟩ := spells.faces_closing closes
  refine ⟨old, new, children, stops, ?_⟩
  have methods := others.rows
    (R := fun r n => ∃ flags, n.unplaced = (FactoryTerm.ofRecord c r).tree flags)
    ⟨text, sound'.advance⟩ closed ended (fun r hr ws => ⟨?_, fun c' trusted => ?_⟩) faces
  · refine methods.imp ?_
    rintro r n ⟨m, rfl, flags, hm⟩
    exact ⟨flags, by rw [Node.unplaced_inRole, hm]⟩
  · have word := Kind.isPropertyWord_ofName (FactoryTerm.ofRecord c r).name
    intro closes
    rw [show Kind.ofName (FactoryTerm.ofRecord c r).name = _ from closes] at word
    cases word
  · refine (FactoryTerm.ofRecord_fits config (plain r hr)).readsRow fun known => ?_
    rw [trusted] at known
    cases known

end Node
end FactorySync
