import FactorySync.Literal.Members
import FactorySync.Proofs.Blanks
import FactorySync.Proofs.Grammar.Statements

/-!
# Where nodes lie in the text

What the layout of a tree means for the offsets of its nodes. A node begins where a token begins
and lies between two characters (`Reads.cuts`), and the members of an object literal tile what is
between its braces: each begins where the brace or comma before it ends (`Node.literal_tile`).
-/

namespace FactorySync

open Parse

/-- The tree of `n` has the node `m` in it. -/
inductive Node.Contains : Node → Node → Prop
  | self (n : Node) : Node.Contains n n
  | child {n c m : Node} (mem : c ∈ n.children) (inner : Node.Contains c m) : Node.Contains n m

/-- Nodes in the order of the text, each beginning at a token. -/
structure InOrder (text : List Char) (ns : List Node) : Prop where
  cuts : ∀ n ∈ ns, n.span.Cuts text
  tokenStart : ∀ n ∈ ns, TokenStart text n.span.start
  pairwise : ns.Pairwise fun a b => a.span.stop ≤ b.span.start

theorem InOrder.filter {text : List Char} {ns : List Node} (h : InOrder text ns)
    (p : Node → Bool) : InOrder text (ns.filter p) where
  cuts n hn := h.cuts n (List.mem_filter.1 hn).1
  tokenStart n hn := h.tokenStart n (List.mem_filter.1 hn).1
  pairwise := h.pairwise.filter p

namespace Parse

variable {text : List Char} {r s : Reading} {n m : Node}

theorem Reading.Sound.tokenStart (h : r.Sound text) : TokenStart text r.here :=
  ⟨_, h.scanner.place, h.scanner.fresh⟩

theorem Reading.Sound.lastEnd_boundary (h : r.Sound text) : isBoundary r.lastEnd text = true := by
  obtain ⟨gap, place, -⟩ := h.gap
  exact place.isBoundary

theorem Reading.Sound.here_boundary (h : r.Sound text) : isBoundary r.here text = true :=
  h.scanner.place.isBoundary

/-- Behind the first token, all that stands in front of a token is trivia. -/
theorem Reading.Sound.gap_size (h : r.Sound text) (started : 0 < r.lastEnd) :
    (Trivia.read .between (dropBytes r.lastEnd text)).size =
      (sliceBytes r.lastEnd r.here text).length := by
  obtain ⟨gap, place, hsize⟩ := h.gap
  have hhere : r.here = r.lastEnd + byteLength gap := by
    have := place.after.length_eq
    have := h.scanner.length_eq
    simp only [here, token]
    omega
  rw [beq_false_of_ne (Nat.ne_of_gt started), Trivia.ofChars_false] at hsize
  rw [hhere, place.slice, place.dropBytes, hsize]

theorem Reads.sound (h : Reads r n s) (sound : r.Sound text) : s.Sound text := h.run.sound sound

/-- A node begins at a token and ends between two characters. -/
theorem Reads.cuts (h : Reads r n s) (sound : r.Sound text) : n.span.Cuts text := by
  have last := h.sound sound
  refine ⟨h.start_le_stop, h.start_eq ▸ sound.here_boundary, ?_⟩
  cases h with
  | plain _ _ span => rw [span]; exact last.lastEnd_boundary
  | hole _ _ span => rw [span]; exact sound.here_boundary
  | literal _ _ _ span => rw [span]; exact last.lastEnd_boundary

theorem Reads.tokenStart (h : Reads r n s) (sound : r.Sound text) : TokenStart text n.span.start :=
  h.start_eq ▸ sound.tokenStart

theorem ReadsAll.reads_mem {ns : List Node} (h : ReadsAll r ns s) (hmem : n ∈ ns) :
    ∃ r' s', Run r r' ∧ Reads r' n s' := by
  induction ns generalizing r with
  | nil => exact absurd hmem List.not_mem_nil
  | cons m ns ih =>
    cases h with
    | cons before first rest =>
      rcases List.mem_cons.1 hmem with rfl | hmem
      · exact ⟨_, _, before, first⟩
      · obtain ⟨r', s', run, reads⟩ := ih rest hmem
        exact ⟨r', s', (before.trans first.run).trans run, reads⟩

theorem ReadsAll.lastEnd_le_start {r s : Reading} {ns : List Node} (h : ReadsAll r ns s)
    (sound : r.Sound text) : ∀ n ∈ ns, r.lastEnd ≤ n.span.start := by
  intro n hn
  obtain ⟨r', s', run, reads⟩ := h.reads_mem hn
  rw [reads.start_eq]
  exact Nat.le_trans (run.lastEnd_le sound) (run.sound sound).lastEnd_le_here

theorem ReadsAll.inOrder {r s : Reading} {ns : List Node} (h : ReadsAll r ns s)
    (sound : r.Sound text) : InOrder text ns where
  cuts n hn := by
    obtain ⟨r', s', run, reads⟩ := h.reads_mem hn
    exact reads.cuts (run.sound sound)
  tokenStart n hn := by
    obtain ⟨r', s', run, reads⟩ := h.reads_mem hn
    exact reads.tokenStart (run.sound sound)
  pairwise := by
    induction ns generalizing r with
    | nil => exact .nil
    | cons n ns ih =>
      cases h with
      | cons before first rest =>
        have sound' := first.sound (before.sound sound)
        refine List.pairwise_cons.2 ⟨fun m hm => ?_, ih rest sound'⟩
        exact Nat.le_trans first.stop_le (rest.lastEnd_le_start sound' m hm)

/-- The members of an object literal are nodes that stand one after the other. -/
theorem ReadsMembers.all {ns : List Node} {ends : List (Option Nat)}
    (h : ReadsMembers r ns ends s) : ReadsAll r ns s := by
  induction ns generalizing r ends with
  | nil => exact .nil h.run
  | cons m ns ih =>
    cases h with
    | last _ member => exact member.all
    | cons _ member _ rest =>
      exact member.all.append ((ReadsAll.nil (Step.advance _).run).append (ih rest))

/-- The parts of a node, in the order in which they are read, with all of it. -/
theorem Reads.parts_read (h : Reads r n s) (valid : r.Valid) : ∃ r' ps s', Run r r' ∧
    n.Ordered ps ∧ ReadsAll r' ps s' ∧ s'.lastEnd ≤ n.span.stop := by
  cases h with
  | plain _ _ span _ ordered parts =>
    exact ⟨r, _, s, .refl r, ordered, parts, Nat.le_of_eq (by rw [span])⟩
  | hole _ _ span parts =>
    obtain ⟨text, sound⟩ := valid
    have unmarked := List.map_eq_nil_iff.1 (List.append_eq_nil_iff.1 parts).2
    refine ⟨r, _, r, .refl r, .of_unmarked unmarked, ?_, ?_⟩
    · rw [(List.append_eq_nil_iff.1 parts).1]
      exact .nil (.refl r)
    · rw [span]
      exact sound.lastEnd_le_here
  | @literal _ s _ _ _ _ unmarked span _ _ members =>
    have run := (Step.advance r).run
    obtain ⟨text, sound⟩ := (run.trans members.run).valid valid
    refine ⟨r.advance, _, s, run, .of_unmarked unmarked, members.all, ?_⟩
    rw [span]
    exact Nat.le_trans sound.lastEnd_le_here s.here_le_stop

theorem Reads.reads_part (h : Reads r n s) (valid : r.Valid) (mem : m ∈ n.parts) :
    ∃ r' s', Run r r' ∧ Reads r' m s' := by
  obtain ⟨r', ps, s', run, ordered, parts, -⟩ := h.parts_read valid
  obtain ⟨r'', s'', run', reads⟩ := parts.reads_mem (ordered.perm.mem_iff.2 mem)
  exact ⟨r'', s'', run.trans run', reads⟩

/-- Every node of a tree stands for what is consumed somewhere on the way. -/
theorem Reads.reads_of_contains (h : Reads r n s) (valid : r.Valid) (inner : n.Contains m) :
    ∃ r' s', Run r r' ∧ Reads r' m s' := by
  induction inner generalizing r s with
  | self n => exact ⟨r, s, .refl r, h⟩
  | child mem _ ih =>
    obtain ⟨r', s', run, reads⟩ := h.reads_part valid (List.mem_append_left _ mem)
    obtain ⟨r'', s'', run', reads'⟩ := ih reads (run.valid valid)
    exact ⟨r'', s'', run.trans run', reads'⟩

end Parse

namespace SourceFile

theorem parse_tree_kind (path : String) (text : List Char) :
    (parse path text).tree.kind = .sourceFile := by
  rw [parse, parse?]
  cases Parser.fileStatements.run _ _ <;> rfl

/-- A node of a file without errors stands for what is consumed somewhere on the way through the
file. -/
theorem run_of_contains {path : String} {text : List Char} {n : Node}
    (clean : (parse path text).hasErrors = false) (found : (parse path text).tree.Contains n)
    (notFile : n.kind ≠ .sourceFile) :
    ∃ r s, Run (Parser.firstReading path text) r ∧ Reads r n s := by
  obtain ⟨last, reads⟩ := reads_statements clean
  cases found with
  | self => exact absurd (parse_tree_kind path text) notFile
  | child mem inner =>
    obtain ⟨r, s, run, statement⟩ := reads.reads_mem mem
    have sound := run.sound (Parser.firstReading_sound path text)
    obtain ⟨r', s', run', node⟩ := statement.reads_of_contains ⟨text, sound⟩ inner
    exact ⟨r', s', run.trans run', node⟩

theorem reads_of_contains {path : String} {text : List Char} {n : Node}
    (clean : (parse path text).hasErrors = false) (found : (parse path text).tree.Contains n)
    (notFile : n.kind ≠ .sourceFile) : ∃ r s, r.Sound text ∧ Reads r n s := by
  obtain ⟨r, s, run, reads⟩ := run_of_contains clean found notFile
  exact ⟨r, s, run.sound (Parser.firstReading_sound path text), reads⟩

end SourceFile

/-! ## Members of object literals -/

namespace Member

/-- How a member lies in the text: between the offset where it begins and the end of its comma, and
not in the middle of trivia. -/
structure Placed (text : List Char) (m : Member) : Prop where
  fullStart_le : m.fullStart ≤ m.element.span.start
  cuts : m.element.span.Cuts text
  stop_le : m.element.span.stop ≤ m.fullStop
  /-- A comma takes room. -/
  separated : m.separatorEnd.isSome = true → m.element.span.stop < m.fullStop
  fullStart_boundary : isBoundary m.fullStart text = true
  fullStop_boundary : isBoundary m.fullStop text = true
  tokenStart : TokenStart text m.element.span.start
  /-- All that stands in front of the member is trivia. -/
  leading_size : (Trivia.read .between (dropBytes m.fullStart text)).size =
    (sliceBytes m.fullStart m.element.span.start text).length

/-- From the offset `start` on, each member begins where the one before it ends, and only the last
one may do without a comma. -/
inductive Tile (text : List Char) : Nat → List Member → Prop
  | nil {start : Nat} : Tile text start []
  | cons {m : Member} {ms : List Member} (placed : m.Placed text)
      (comma : ms ≠ [] → m.separatorEnd.isSome = true) (rest : Tile text m.fullStop ms) :
      Tile text m.fullStart (m :: ms)

variable {text : List Char} {start i j : Nat} {ms : List Member} {a b : Member}

theorem Placed.fullStart_le_fullStop (h : a.Placed text) : a.fullStart ≤ a.fullStop :=
  Nat.le_trans h.fullStart_le (Nat.le_trans h.cuts.start_le_stop h.stop_le)

theorem Tile.placed (h : Tile text start ms) (hi : ms[i]? = some a) : a.Placed text := by
  induction h generalizing i with
  | nil => exact nomatch hi
  | cons placed _ _ ih =>
    cases i with
    | zero => cases hi; exact placed
    | succ i => exact ih hi

theorem Tile.start_le (h : Tile text start ms) (hi : ms[i]? = some a) : start ≤ a.fullStart := by
  induction h generalizing i with
  | nil => exact nomatch hi
  | cons placed _ _ ih =>
    cases i with
    | zero => cases hi; exact Nat.le_refl _
    | succ i => exact Nat.le_trans placed.fullStart_le_fullStop (ih hi)

/-- A member that is not the last one has a comma, and what comes later begins behind it. -/
theorem Tile.comma_and_le (h : Tile text start ms) (hi : ms[i]? = some a) (hj : ms[j]? = some b)
    (lt : i < j) : a.separatorEnd.isSome = true ∧ a.fullStop ≤ b.fullStart := by
  induction h generalizing i j with
  | nil => exact nomatch hi
  | cons placed comma rest ih =>
    obtain ⟨j, rfl⟩ := Nat.exists_eq_add_one_of_ne_zero (Nat.ne_zero_of_lt lt)
    cases i with
    | zero =>
      cases hi
      exact ⟨comma (fun hnil => by simp [hnil] at hj), rest.start_le hj⟩
    | succ i => exact ih hi hj (Nat.lt_of_succ_lt_succ lt)

theorem Tile.head_fullStart (h : Tile text start ms) (hi : ms[0]? = some a) :
    a.fullStart = start := by
  cases h with
  | nil => exact nomatch hi
  | cons => cases hi; rfl

theorem Tile.follows (h : Tile text start ms) (hi : ms[i]? = some a) (hj : ms[i + 1]? = some b) :
    b.fullStart = a.fullStop := by
  induction h generalizing i with
  | nil => exact nomatch hi
  | cons placed comma rest ih =>
    cases i with
    | zero =>
      cases hi
      exact rest.head_fullStart hj
    | succ i => exact ih hi hj

end Member

namespace Parse

variable {text : List Char}

theorem ReadsMembers.role_eq {r s : Reading} {ns : List Node} {ends : List (Option Nat)}
    (h : ReadsMembers r ns ends s) : ∀ n ∈ ns, n.role = .properties := by
  induction ns generalizing r ends with
  | nil => exact nofun
  | cons m ns ih =>
    intro n hmem
    cases h with
    | last parsed =>
      obtain rfl := List.mem_singleton.1 hmem
      exact parsed.role_eq
    | cons parsed _ _ rest =>
      rcases List.mem_cons.1 hmem with rfl | hmem
      · exact parsed.role_eq
      · exact ih rest n hmem

theorem ReadsMembers.tile {r s : Reading} {ns : List Node} {ends : List (Option Nat)}
    (h : ReadsMembers r ns ends s) (sound : r.Sound text) (started : 0 < r.lastEnd)
    (index : Nat) :
    Member.Tile text r.lastEnd (Member.ofElements index r.lastEnd ns ends) := by
  induction ns generalizing r ends index with
  | nil => exact .nil
  | cons n ns ih =>
    cases h with
    | last _ member =>
      have cuts := member.cuts sound
      have placed : Member.Placed text
          { index, element := n, fullStart := r.lastEnd, separatorEnd := none } := {
        fullStart_le := member.start_eq ▸ sound.lastEnd_le_here
        cuts
        stop_le := Nat.le_refl _
        separated := fun h => Bool.noConfusion h
        fullStart_boundary := sound.lastEnd_boundary
        fullStop_boundary := cuts.stop_boundary
        tokenStart := member.tokenStart sound
        leading_size := member.start_eq ▸ sound.gap_size started }
      exact .cons placed (fun more => absurd rfl more) .nil
    | @cons _ s _ _ _ _ _ member comma rest =>
      have last := member.sound sound
      have stop_lt : n.span.stop < s.token.stop :=
        Nat.lt_of_le_of_lt (Nat.le_trans member.stop_le last.lastEnd_le_here)
          (last.here_lt_stop (by simp [comma]))
      have placed : Member.Placed text
          { index, element := n, fullStart := r.lastEnd, separatorEnd := some s.token.stop } := {
        fullStart_le := member.start_eq ▸ sound.lastEnd_le_here
        cuts := member.cuts sound
        stop_le := Nat.le_of_lt stop_lt
        separated := fun _ => stop_lt
        fullStart_boundary := sound.lastEnd_boundary
        fullStop_boundary := last.advance.lastEnd_boundary
        tokenStart := member.tokenStart sound
        leading_size := member.start_eq ▸ sound.gap_size started }
      exact .cons placed (fun _ => rfl)
        (ih rest last.advance (Nat.zero_lt_of_lt stop_lt) (index + 1))

end Parse

/-- A brace or comma takes one byte. -/
theorem Parse.Reading.Sound.stop_eq {text : List Char} {r : Reading} (sound : r.Sound text)
    {c : Char} (hc : c.utf8Size = 1)
    (spelled : r.token.kind.punctuationText? = some (String.ofList [c])) :
    r.token.stop = r.here + 1 := by
  have hsource : r.token.source = [c] := by
    simpa [Reading.token] using sound.scanner.spelled _ spelled
  have hlength : byteLength r.token.source = 1 := by
    rw [hsource, byteLength_cons, hc, byteLength_nil]
  exact congrArg (r.here + ·) hlength

/-- An object literal is read from behind its opening brace to in front of its closing one. -/
theorem Node.literal_read {text : List Char} {r s : Reading} {n : Node} (h : Reads r n s)
    (sound : r.Sound text) (isLiteral : n.kind = .objectLiteralExpression) :
    ∃ last ends, ReadsMembers r.advance n.children ends last ∧ 0 < r.advance.lastEnd ∧
      n.openBraceEnd = r.advance.lastEnd ∧ n.closeBraceStart = last.here ∧
      n.members = Member.ofElements 0 r.advance.lastEnd n.children ends ∧
      last.token.kind = .closeBrace := by
  cases h with
  | plain kind =>
    rw [isLiteral] at kind
    exact Bool.noConfusion kind
  | hole kind => simp [isLiteral] at kind
  | @literal _ s _ ends _ _ _ span detail opened members closed =>
    have last := members.run.sound sound.advance
    have hstop : r.token.stop = r.here + 1 :=
      sound.stop_eq (c := '\x7b') rfl (by rw [opened]; rfl)
    have hstop' : s.token.stop = s.here + 1 :=
      last.stop_eq (c := '\x7d') rfl (by rw [closed]; rfl)
    have hopen : n.openBraceEnd = r.advance.lastEnd := by
      rw [openBraceEnd, span, Reading.advance_lastEnd, hstop]
    have hchildren : n.childrenIn .properties = n.children := by
      rw [childrenIn, List.filter_eq_self]
      exact fun m hm => by simp [members.role_eq m hm]
    refine ⟨s, ends, members, by simp [hstop], hopen, ?_, ?_, closed⟩
    · rw [closeBraceStart, span]
      exact Nat.sub_eq_of_eq_add hstop'
    · rw [Node.members, hchildren, detail, hopen]

/-- What is between the braces of an object literal, and its members, which tile it. -/
theorem Node.literal_tile {text : List Char} {r s : Reading} {n : Node} (h : Reads r n s)
    (sound : r.Sound text) (isLiteral : n.kind = .objectLiteralExpression) :
    (⟨n.openBraceEnd, n.closeBraceStart⟩ : Span).Cuts text ∧
      Member.Tile text n.openBraceEnd n.members := by
  obtain ⟨last, ends, members, started, hopen, hclose, hmembers, -⟩ :=
    literal_read h sound isLiteral
  have sound' := members.run.sound sound.advance
  rw [hmembers, hopen, hclose]
  refine ⟨⟨?_, sound.advance.lastEnd_boundary, sound'.here_boundary⟩,
    members.tile sound.advance started 0⟩
  exact Nat.le_trans (members.run.lastEnd_le sound.advance) sound'.lastEnd_le_here

end FactorySync
