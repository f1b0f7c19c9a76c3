import FactorySync.Proofs.Tiling

/-!
# Ranges of nodes

Reading a file consumes its tokens one after the other (`Consumes`). In a file without errors every
node begins where one of them begins and ends where one of them ends, and only an element that is
left out of a list is empty (`Among`, by induction on how the node was read). A node has its parts
inside, and they stand one after the other (`Reads.parts_inside`).
-/

namespace FactorySync

/-- The node `n` has `m` in it: the node itself, a child or kept token, or one further inside. -/
inductive Node.Holds : Node → Node → Prop
  | self (n : Node) : Node.Holds n n
  | part {n p m : Node} (mem : p ∈ n.parts) (inner : Node.Holds p m) : Node.Holds n m

/-- An element that is left out. -/
def Node.IsHole (n : Node) : Prop := n.kind = .hole ∨ n.kind = .omittedExpression

theorem Node.not_isHole_of_not_special {n : Node} (h : n.kind.isSpecial = false) : ¬ n.IsHole := by
  rintro (hole | omitted)
  · rw [hole] at h
    exact Bool.noConfusion h
  · rw [omitted] at h
    exact Bool.noConfusion h

namespace Parse

variable {text : List Char} {r s t : Reading} {n m : Node} {ns : List Node} {ts us : List Token}

/-! ## Consumed tokens -/

/-- The tokens that are consumed between two readings, in the way each is read in the end. -/
inductive Consumes (r : Reading) : List Token → Reading → Prop
  | refl : Consumes r [] r
  | advance {ts : List Token} {s : Reading} (run : Consumes r ts s) :
      Consumes r (ts ++ [s.token]) s.advance
  | rescan {ts : List Token} {s : Reading} (run : Consumes r ts s) (way : Rescan) :
      Consumes r ts (s.rescan way)
  | note {ts : List Token} {s : Reading} (run : Consumes r ts s) (p : Problem)
      (isError : p.template.category = .error) : Consumes r ts (s.note p)
  | passOver {ts : List Token} {s : Reading} (run : Consumes r ts s) (p : Problem)
      (more : s.token.kind ≠ .endOfFile) : Consumes r (ts ++ [s.token]) (s.note p).advance

theorem Run.consumes (h : Run r s) : ∃ ts, Consumes r ts s := by
  induction h with
  | refl => exact ⟨[], .refl⟩
  | step _ last ih =>
    obtain ⟨ts, run⟩ := ih
    cases last with
    | advance => exact ⟨_, run.advance⟩
    | rescan way => exact ⟨_, run.rescan way⟩
    | note p isError => exact ⟨_, run.note p isError⟩
    | passOver p _ more => exact ⟨_, run.passOver p more⟩

namespace Consumes

theorem run (h : Consumes r ts s) : Run r s := by
  induction h with
  | refl => exact .refl r
  | advance _ ih => exact ih.step (.advance _)
  | rescan _ way ih => exact ih.step (.rescan way _)
  | note _ p isError ih => exact ih.step (.note p isError _)
  | passOver _ p more ih => exact ih.step (.passOver p _ more)

theorem append (h : Consumes r ts s) (h' : Consumes s us t) : Consumes r (ts ++ us) t := by
  induction h' with
  | refl => rwa [List.append_nil]
  | advance _ ih => rw [← List.append_assoc]; exact ih.advance
  | rescan _ way ih => exact ih.rescan way
  | note _ p isError ih => exact ih.note p isError
  | passOver _ p more ih => rw [← List.append_assoc]; exact ih.passOver p more

/-- The first token begins where reading began, which is still so if there is none. -/
theorem head_start (h : Consumes r ts s) : ((ts ++ [s.token]).head (by simp)).start = r.here := by
  induction h with
  | refl => rfl
  | @advance ts s _ ih => cases ts <;> exact ih
  | @rescan ts s _ way ih =>
    cases ts with
    | nil => exact (Reading.rescan_here way s).trans ih
    | cons => exact ih
  | @note ts s _ p _ ih =>
    cases ts with
    | nil => exact (Reading.note_here p s).trans ih
    | cons => exact ih
  | @passOver ts s _ p _ ih => cases ts <;> exact ih

/-- Reading stands behind the last token. -/
theorem getLast_stop (h : Consumes r ts s) :
    s.lastEnd = (ts.getLast?.map Token.stop).getD r.lastEnd := by
  induction h with
  | refl => rfl
  | advance => simp
  | rescan _ way ih => rwa [Reading.rescan_lastEnd]
  | note _ p _ ih => rwa [Reading.note_lastEnd]
  | passOver _ p => simp

/-- What spans more than nothing spans tokens. -/
theorem spans (h : Consumes r ts s) (valid : r.Valid) (lt : r.here < s.lastEnd) :
    ∃ first ∈ ts, ∃ last ∈ ts, first.start = r.here ∧ last.stop = s.lastEnd := by
  have stop := h.getLast_stop
  have start := h.head_start
  cases ts with
  | nil =>
    obtain ⟨text, sound⟩ := valid
    have := sound.lastEnd_le_here
    simp only [List.getLast?_nil, Option.map_none, Option.getD_none] at stop
    omega
  | cons first ts =>
    rw [List.getLast?_eq_some_getLast (List.cons_ne_nil first ts), Option.map_some,
      Option.getD_some] at stop
    exact ⟨first, List.mem_cons_self, _, List.getLast_mem _, start, stop.symm⟩

end Consumes

/-! ## Nodes among tokens -/

/-- Where a node lies among the tokens consumed before `s`. Only at the end of the text a node could
be without a token of its own. -/
inductive Among (ts : List Token) (s : Reading) (n : Node) : Prop
  | tokens {first last : Token} (whole : ¬ n.IsHole) (first_mem : first ∈ ts) (last_mem : last ∈ ts)
      (span : n.span = ⟨first.start, last.stop⟩)
  | atEnd (whole : ¬ n.IsHole) (ended : s.token.kind = .endOfFile) (span : n.span = .empty s.here)
  | hole {comma : Token} (isHole : n.IsHole) (mem : comma ∈ ts) (isComma : comma.kind = .comma)
      (span : n.span = .empty comma.start)

theorem Among.before (h : Among us s n) (ts : List Token) : Among (ts ++ us) s n := by
  cases h with
  | tokens whole first last span =>
    exact .tokens whole (List.mem_append_right _ first) (List.mem_append_right _ last) span
  | atEnd whole ended span => exact .atEnd whole ended span
  | hole isHole mem isComma span => exact .hole isHole (List.mem_append_right _ mem) isComma span

theorem Among.then (h : Among ts s n) (valid : s.Valid) (run : Consumes s us t) :
    Among (ts ++ us) t n := by
  cases h with
  | tokens whole first last span =>
    exact .tokens whole (List.mem_append_left _ first) (List.mem_append_left _ last) span
  | atEnd whole ended span =>
    rw [← run.run.here_of_endOfFile valid ended] at span
    obtain ⟨text, sound⟩ := valid
    exact .atEnd whole (run.run.endOfFile sound ended) span
  | hole isHole mem isComma span => exact .hole isHole (List.mem_append_left _ mem) isComma span

mutual

/-- The tokens that a node is read from, and where it and all in it lie among them. -/
theorem Reads.among {r s : Reading} {n : Node} (valid : r.Valid) :
    Reads r n s → ∃ ts, Consumes r ts s ∧ ∀ m, n.Holds m → Among ts s m
  | .plain kind _ span moved ordered parts => by
    obtain ⟨ts, run, inner⟩ := parts.among valid
    refine ⟨ts, run, fun m held => ?_⟩
    have whole := Node.not_isHole_of_not_special kind
    cases held with
    | self =>
      rcases moved with lt | ⟨atEnd, stop⟩
      · obtain ⟨first, first_mem, last, last_mem, start, stop⟩ := run.spans valid lt
        exact .tokens whole first_mem last_mem (by rw [span, start, stop])
      · have here := run.run.here_of_endOfFile valid atEnd
        obtain ⟨text, sound⟩ := valid
        exact .atEnd whole (run.run.endOfFile sound atEnd) (by rw [span, stop, here]; rfl)
    | part mem held => exact inner _ (ordered.perm.mem_iff.2 mem) m held
  | .hole kind _ span parts comma => by
    refine ⟨_, .advance .refl, fun m held => ?_⟩
    cases held with
    | self => exact .hole kind (List.mem_singleton_self _) comma span
    | part mem => exact absurd mem (by simp [parts])
  | .literal (s := s) kind _ unmarked span _ _ members _ => by
    have first : Consumes r [r.token] r.advance := .advance .refl
    obtain ⟨ts, run, inner⟩ := members.among (first.run.valid valid)
    refine ⟨_, (first.append run).advance, fun m held => ?_⟩
    cases held with
    | self =>
      refine @Among.tokens _ _ _ r.token s.token ?_ (by simp) (by simp) span
      rintro (hole | omitted)
      · rw [kind] at hole
        cases hole
      · rw [kind] at omitted
        cases omitted
    | @part _ p _ mem held =>
      have member : p ∈ n.children := by simpa [Node.parts, unmarked] using mem
      exact ((inner p member m held).before [r.token]).then
        ((first.run.trans run.run).valid valid) (.advance .refl)

theorem ReadsAll.among {r s : Reading} {ns : List Node} (valid : r.Valid) :
    ReadsAll r ns s → ∃ ts, Consumes r ts s ∧ ∀ n ∈ ns, ∀ m, n.Holds m → Among ts s m
  | .nil run => by
    obtain ⟨ts, run⟩ := run.consumes
    exact ⟨ts, run, by simp⟩
  | .cons before first rest => by
    obtain ⟨ts, run⟩ := before.consumes
    have valid := before.valid valid
    obtain ⟨us, run', node⟩ := first.among valid
    have valid := first.run.valid valid
    obtain ⟨vs, run'', others⟩ := rest.among valid
    refine ⟨_, (run.append run').append run'', fun n mem m held => ?_⟩
    rcases List.mem_cons.1 mem with rfl | mem
    · exact ((node m held).before ts).then valid run''
    · exact (others n mem m held).before _

theorem ReadsMembers.among {r s : Reading} {ns : List Node} {ends : List (Option Nat)}
    (valid : r.Valid) :
    ReadsMembers r ns ends s → ∃ ts, Consumes r ts s ∧ ∀ n ∈ ns, ∀ m, n.Holds m → Among ts s m
  | .nil => ⟨[], .refl, by simp⟩
  | .last _ member => by
    obtain ⟨ts, run, node⟩ := member.among valid
    exact ⟨ts, run, fun n mem => by rwa [List.mem_singleton.1 mem]⟩
  | .cons (s := s) _ member _ rest => by
    obtain ⟨ts, run, node⟩ := member.among valid
    have valid := member.run.valid valid
    have comma : Consumes s [s.token] s.advance := .advance .refl
    obtain ⟨us, run', others⟩ := rest.among (comma.run.valid valid)
    refine ⟨_, run.append (comma.append run'), fun n mem m held => ?_⟩
    rcases List.mem_cons.1 mem with rfl | mem
    · exact (node m held).then valid (comma.append run')
    · exact ((others n mem m held).before [s.token]).before ts

end

/-- Everything that a node holds stands for what is consumed somewhere on the way. -/
theorem Reads.reads_of_holds (h : Reads r n s) (valid : r.Valid) (held : n.Holds m) :
    ∃ r' s', Run r r' ∧ Reads r' m s' := by
  induction held generalizing r s with
  | self n => exact ⟨r, s, .refl r, h⟩
  | part mem _ ih =>
    obtain ⟨r', s', run, reads⟩ := h.reads_part valid mem
    obtain ⟨r'', s'', run', reads'⟩ := ih reads (run.valid valid)
    exact ⟨r'', s'', run.trans run', reads'⟩

theorem ReadsAll.stop_le (h : ReadsAll r ns s) (valid : r.Valid) :
    ∀ n ∈ ns, n.span.stop ≤ s.lastEnd := by
  induction ns generalizing r with
  | nil => simp
  | cons n ns ih =>
    cases h with
    | cons before first rest =>
      have valid := first.run.valid (before.valid valid)
      exact List.forall_mem_cons.2
        ⟨Nat.le_trans first.stop_le (rest.run.lastEnd_mono valid), ih rest valid⟩

/-- A node has its parts inside, and they stand one after the other. -/
theorem Reads.parts_inside (h : Reads r n s) (sound : r.Sound text) :
    (∀ p ∈ n.parts, n.span.start ≤ p.span.start ∧ p.span.stop ≤ n.span.stop) ∧
      ∃ ps, n.Ordered ps ∧ ps.Pairwise fun a b => a.span.stop ≤ b.span.start := by
  obtain ⟨r', ps, s', run, ordered, parts, last⟩ := h.parts_read ⟨text, sound⟩
  refine ⟨fun p mem => ?_, ps, ordered, (parts.inOrder (run.sound sound)).pairwise⟩
  have mem := ordered.perm.mem_iff.2 mem
  refine ⟨?_, Nat.le_trans (parts.stop_le (run.valid ⟨text, sound⟩) p mem) last⟩
  obtain ⟨r'', s'', run', reads⟩ := parts.reads_mem mem
  rw [h.start_eq, reads.start_eq]
  exact (run.trans run').here_le

theorem Reads.present (h : Reads r n s) : n.flags.missing = false := by
  cases h with
  | plain _ present => exact present
  | hole _ present => exact present
  | literal _ present => exact present

end Parse

/-! ## Files -/

/-- Where a node lies in a text of which these are the tokens. -/
structure Node.Ranged (text : List Char) (ts : List Token) (n : Node) : Prop where
  present : n.flags.missing = false
  start_le_stop : n.span.start ≤ n.span.stop
  stop_le : n.span.stop ≤ byteLength text
  /-- It begins where a token begins and ends where a token ends. -/
  spans : n.kind ≠ .sourceFile → ¬ n.IsHole →
    ∃ first ∈ ts, ∃ last ∈ ts, n.span = ⟨first.start, last.stop⟩
  /-- An element that is left out is empty, at the comma behind it. -/
  hole : n.IsHole → ∃ comma ∈ ts, comma.kind = .comma ∧ n.span = .empty comma.start
  inside : ∀ p ∈ n.parts, n.span.start ≤ p.span.start ∧ p.span.stop ≤ n.span.stop
  /-- The parts stand one after the other. -/
  apart : ∃ ps, n.Ordered ps ∧ ps.Pairwise fun a b => a.span.stop ≤ b.span.start

namespace Parse

variable {text : List Char} {r s : Reading} {n : Node} {ts : List Token}

theorem Reads.ranged (h : Reads r n s) (sound : r.Sound text) {last : Reading}
    (among : Among ts last n) (atEnd : last.Sound text ∧ last.token.kind = .endOfFile) :
    n.Ranged text (ts ++ [last.token]) where
  present := h.present
  start_le_stop := h.start_le_stop
  stop_le := (h.cuts sound).stop_le
  spans _ whole := by
    cases among with
    | tokens _ first_mem last_mem span =>
      exact ⟨_, List.mem_append_left _ first_mem, _, List.mem_append_left _ last_mem, span⟩
    | atEnd _ _ span =>
      have source : last.token.source = [] := (atEnd.1.scanner.nothing_left atEnd.2).1
      have mem : last.token ∈ ts ++ [last.token] := by simp
      refine ⟨_, mem, _, mem, ?_⟩
      rw [span, Token.stop, source]
      rfl
    | hole isHole => exact absurd isHole whole
  hole isHole := by
    cases among with
    | tokens whole => exact absurd isHole whole
    | atEnd whole => exact absurd isHole whole
    | hole _ mem isComma span => exact ⟨_, List.mem_append_left _ mem, isComma, span⟩
  inside := (h.parts_inside sound).1
  apart := (h.parts_inside sound).2

end Parse

namespace SourceFile

open Parse FactorySync.Parser

theorem parse_tree (path : String) (text : List Char) : (parse path text).tree =
    { role := .file, kind := .sourceFile, span := ⟨0, byteLength text⟩, detail := .file path,
      children := (parse path text).statements } := by
  rw [parse, parse?]
  cases fileStatements.run _ _ <;> rfl

/-- The statements of a file lie in its text, one after the other. -/
theorem tree_ranged {path : String} {text : List Char} {ts : List Token}
    (clean : (parse path text).hasErrors = false) : (parse path text).tree.Ranged text ts := by
  obtain ⟨last, reads⟩ := reads_statements clean
  have inOrder := reads.inOrder (firstReading_sound path text)
  rw [parse_tree]
  refine ⟨rfl, Nat.zero_le _, Nat.le_refl _, fun other => absurd rfl other, nofun, ?_,
    _, .of_unmarked rfl, inOrder.pairwise⟩
  intro p mem
  have mem : p ∈ (parse path text).statements := by simpa [Node.parts] using mem
  exact ⟨Nat.zero_le _, (inOrder.cuts p mem).stop_le⟩

/-- In a file without errors every node lies among the tokens that are consumed, in its parent and
apart from its neighbours. -/
theorem nodes_ranged {path : String} {text : List Char}
    (clean : (parse path text).hasErrors = false) :
    ∃ ts last, Consumes (firstReading path text) ts last ∧ last.token.kind = .endOfFile ∧
      ∀ n, (parse path text).tree.Holds n → n.Ranged text (ts ++ [last.token]) := by
  obtain ⟨last, reads, atEnd⟩ := reads_file clean
  have sound := firstReading_sound path text
  obtain ⟨ts, run, among⟩ := reads.among ⟨text, sound⟩
  refine ⟨ts, last, run, atEnd, fun n held => ?_⟩
  cases held with
  | self => exact tree_ranged clean
  | @part _ p _ mem inner =>
    have mem : p ∈ (parse path text).statements := by
      rw [parse_tree] at mem
      simpa [Node.parts] using mem
    obtain ⟨r, s, before, statement⟩ := reads.reads_mem mem
    have sound' := before.sound sound
    obtain ⟨r', s', run', node⟩ := statement.reads_of_holds ⟨text, sound'⟩ inner
    exact node.ranged (run'.sound sound') (among p mem n inner) ⟨run.run.sound sound, atEnd⟩

/-- A call with an array whose first element is left out. -/
def leftOut : String := "f?.(a, [, 1]);"

theorem leftOut_read : (parse "a.ts" leftOut.toList).hasErrors = false ∧
    ∃ statement ∈ (parse "a.ts" leftOut.toList).tree.parts, ∃ call ∈ statement.parts,
      call.kind = .callExpression ∧ call.span = ⟨0, 13⟩ ∧ ∃ array ∈ call.parts,
        ∃ element ∈ array.parts, element.kind = .omittedExpression ∧ element.span = ⟨8, 8⟩ := by
  decide +kernel

/-- A token begins and a token ends where the call does, and a comma stands where the element is
left out. -/
theorem leftOut_ranged : ∃ ts last, Consumes (firstReading "a.ts" leftOut.toList) ts last ∧
    (∃ first ∈ ts ++ [last.token], first.start = 0) ∧
    (∃ final ∈ ts ++ [last.token], final.stop = 13) ∧
    ∃ comma ∈ ts ++ [last.token], comma.kind = .comma ∧ comma.start = 8 := by
  obtain ⟨clean, statement, inFile, call, inStatement, kind, span, array, inCall, element, inArray,
    omitted, place⟩ := leftOut_read
  obtain ⟨ts, last, consumes, -, ranged⟩ := nodes_ranged clean
  have callRanged := ranged call (.part inFile (.part inStatement (.self call)))
  have elementRanged := ranged element
    (.part inFile (.part inStatement (.part inCall (.part inArray (.self element)))))
  have whole : ¬ call.IsHole := Node.not_isHole_of_not_special (by rw [kind]; rfl)
  obtain ⟨first, inFirst, final, inFinal, spans⟩ := callRanged.spans (by simp [kind]) whole
  obtain ⟨start, stop⟩ := Span.mk.inj (span.symm.trans spans)
  obtain ⟨comma, inComma, isComma, empty⟩ := elementRanged.hole (.inr omitted)
  exact ⟨ts, last, consumes, ⟨first, inFirst, start.symm⟩, ⟨final, inFinal, stop.symm⟩, comma, inComma,
    isComma, (Span.mk.inj (place.symm.trans empty)).1.symm⟩

end SourceFile

end FactorySync
