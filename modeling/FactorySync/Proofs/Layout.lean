import FactorySync.Parse.File
import FactorySync.Proofs.Progress

/-!
# What the nodes of a tree stand for

`Reads r n s` says that the node `n` stands for what is consumed between the readings `r` and `s`:
it spans exactly that, and its parts, which are its children and the tokens it keeps, stand, one
after the other, for parts of it. An object literal is moreover tiled by its members
(`ReadsMembers`): what is consumed between its braces is each member and the comma after it, and
nothing else. `Laid` is the bookkeeping of a production: which nodes have been read since it began.
-/

namespace FactorySync

/-! ## Parts -/

/-- A kept token as a node without children. -/
def Mark.leaf (m : Mark) : Node := { kind := m.kind, span := m.span }

namespace Node

/-- The children and the kept tokens. -/
def parts (n : Node) : List Node := n.children ++ n.marks.map Mark.leaf

@[simp]
theorem parts_mk (role : Role) (kind : Kind) (span : Span) (flags : NodeFlags)
    (modifiers : Modifiers) (detail : Detail) (marks : List Mark) (lists : List Role)
    (children : List Node) :
    parts { role, kind, span, flags, modifiers, detail, marks, lists, children } =
      children ++ marks.map Mark.leaf := rfl

/-- All parts in some order in which the children stand as they do in the node. -/
structure Ordered (n : Node) (ps : List Node) : Prop where
  perm : ps.Perm n.parts
  children : n.children.Sublist ps

theorem Ordered.of_unmarked {n : Node} (unmarked : n.marks = []) : n.Ordered n.children :=
  ⟨by rw [parts, unmarked, List.map_nil, List.append_nil], .refl _⟩

theorem Ordered.all (n : Node) : n.Ordered n.parts := ⟨.refl _, List.sublist_append_left _ _⟩

/-- Some tokens are kept in front of all children and some among them. -/
theorem Ordered.marks {n : Node} (before within : List Mark) (front back : List Node)
    (children : n.children = front ++ back) (marks : n.marks = before ++ within) :
    n.Ordered (before.map Mark.leaf ++ front ++ within.map Mark.leaf ++ back) := by
  refine ⟨?_, ?_⟩
  · rw [parts, children, marks, List.map_append]
    simp only [List.append_assoc]
    refine (List.perm_append_comm_assoc _ front _).trans (.append_left front ?_)
    rw [← List.append_assoc]
    exact List.perm_append_comm
  · rw [children]
    exact .append (.trans (List.sublist_append_right _ front) (List.sublist_append_left _ _))
      (.refl back)

end Node

/-- Nodes of these kinds are not simply what is consumed for them. -/
def Kind.isSpecial (k : Kind) : Bool :=
  k == .objectLiteralExpression || k == .hole || k == .omittedExpression

theorem Kind.isSpecial_of_isToken {k : Kind} (h : k.isToken = true) : k.isSpecial = false := by
  rw [Bool.eq_false_iff]
  intro special
  simp only [isSpecial, Bool.or_eq_true, beq_iff_eq] at special
  rcases special with (rfl | rfl) | rfl <;> exact Bool.noConfusion h

namespace Parse

/-! ## Consumed tokens -/

/-- A token is consumed between two readings. The end of the file takes no room. -/
def Moves (r s : Reading) : Prop :=
  r.here < s.lastEnd ∨ r.token.kind = .endOfFile ∧ s.lastEnd = r.here

theorem Moves.le {r s : Reading} (h : Moves r s) : r.here ≤ s.lastEnd := by
  rcases h with lt | ⟨-, heq⟩
  · exact Nat.le_of_lt lt
  · exact Nat.le_of_eq heq.symm

theorem Run.valid {r s : Reading} (h : Run r s) (valid : r.Valid) : s.Valid := by
  obtain ⟨text, sound⟩ := valid
  exact ⟨text, h.sound sound⟩

theorem Run.lastEnd_mono {r s : Reading} (h : Run r s) (valid : r.Valid) :
    r.lastEnd ≤ s.lastEnd := by
  obtain ⟨text, sound⟩ := valid
  exact h.lastEnd_le sound

/-- Whoever has not gone on from the end of the file is still there. -/
theorem Run.endOfFile_of_here_eq {r s : Reading} (h : Run r s) (valid : r.Valid)
    (stays : s.here = r.here) (atEnd : s.token.kind = .endOfFile) :
    r.token.kind = .endOfFile := by
  obtain ⟨text, sound⟩ := valid
  rcases h.kind_of_here_eq sound stays with same | reread
  · rw [← same, atEnd]
  · rw [atEnd] at reread
    exact Bool.noConfusion reread

theorem Moves.advance {r s : Reading} (run : Run r s) (valid : r.Valid) : Moves r s.advance := by
  obtain ⟨text, sound⟩ := run.valid valid
  have le := run.here_le
  by_cases atEnd : s.token.kind = .endOfFile
  · have stop : s.token.stop = s.here := by
      have source : s.token.source = [] := (sound.scanner.nothing_left atEnd).1
      rw [Token.stop, source, byteLength_nil, Nat.add_zero, Reading.here]
    rcases Nat.eq_or_lt_of_le le with same | lt
    · exact .inr ⟨run.endOfFile_of_here_eq valid same.symm atEnd, by
        rw [Reading.advance_lastEnd, stop, same]⟩
    · exact .inl (by rwa [Reading.advance_lastEnd, stop])
  · exact .inl (Nat.lt_of_le_of_lt le (sound.here_lt_stop atEnd))

theorem Moves.after {r s t : Reading} (run : Run r s) (valid : r.Valid) (h : Moves s t) :
    Moves r t := by
  have le := run.here_le
  rcases h with lt | ⟨atEnd, stop⟩
  · exact .inl (Nat.lt_of_le_of_lt le lt)
  · rcases Nat.eq_or_lt_of_le le with same | lt
    · exact .inr ⟨run.endOfFile_of_here_eq valid same.symm atEnd, by rw [stop, same]⟩
    · exact .inl (by rwa [stop])

/-- There is nothing behind the end of the file. -/
theorem Run.here_of_endOfFile {r s : Reading} (h : Run r s) (valid : r.Valid)
    (atEnd : r.token.kind = .endOfFile) : s.here = r.here := by
  obtain ⟨text, sound⟩ := valid
  have first := sound.scanner.length_eq
  rw [sound.scanner.atEnd atEnd, byteLength_nil, Nat.add_zero] at first
  have le : s.here ≤ byteLength text := (h.sound sound).scanner.place.le
  have := h.here_le
  rw [← first] at le
  exact Nat.le_antisymm le this

theorem Moves.then_run {r s t : Reading} (h : Moves r s) (before : Run r s) (run : Run s t)
    (valid : r.Valid) : Moves r t := by
  have le := run.lastEnd_mono (before.valid valid)
  rcases h with lt | ⟨atEnd, stop⟩
  · exact .inl (Nat.lt_of_lt_of_le lt le)
  · have whole := before.trans run
    obtain ⟨text, sound⟩ := whole.valid valid
    have := sound.lastEnd_le_here
    rw [whole.here_of_endOfFile valid atEnd] at this
    exact .inr ⟨atEnd, Nat.le_antisymm this (by rwa [stop] at le)⟩

/-- The member was found between two readings, and no error had been noted by then. -/
structure Parsed (r : Reading) (n : Node) (s : Reading) : Prop where
  kind : n.kind.isSpecial = false
  begins : r.token.kind.endsBlock = false
  found : ∃ (k : Nat) (before after : State) (member : Node),
    Parser.objectMember.run (Parser.knot k) before = some (member, after) ∧ after.Clean ∧
      before.toReading = r ∧ after.toReading = s ∧ n = member.inRole .properties

theorem Parsed.role_eq {r s : Reading} {n : Node} (h : Parsed r n s) : n.role = .properties := by
  obtain ⟨-, -, -, member, -, -, -, -, rfl⟩ := h.found
  rfl

mutual

/-- The node stands for what is consumed between two readings. -/
inductive Reads : Reading → Node → Reading → Prop
  | plain {r s : Reading} {n : Node} {ps : List Node} (kind : n.kind.isSpecial = false)
      (present : n.flags.missing = false) (span : n.span = ⟨r.here, s.lastEnd⟩)
      (moved : Moves r s) (ordered : n.Ordered ps) (parts : ReadsAll r ps s) : Reads r n s
  /-- An element that is left out, in front of its comma. -/
  | hole {r : Reading} {n : Node} (kind : n.kind = .hole ∨ n.kind = .omittedExpression)
      (present : n.flags.missing = false) (span : n.span = .empty r.here)
      (parts : n.parts = []) (comma : r.token.kind = .comma) : Reads r n r.advance
  | literal {r s : Reading} {n : Node} {ends : List (Option Nat)}
      (kind : n.kind = .objectLiteralExpression) (present : n.flags.missing = false)
      (unmarked : n.marks = []) (span : n.span = ⟨r.here, s.token.stop⟩)
      (detail : n.detail = .separators ends)
      (opened : r.token.kind = .openBrace) (members : ReadsMembers r.advance n.children ends s)
      (closed : s.token.kind = .closeBrace) : Reads r n s.advance

/-- The nodes stand, one after the other, for parts of what is consumed between two readings. -/
inductive ReadsAll : Reading → List Node → Reading → Prop
  | nil {r s : Reading} (run : Run r s) : ReadsAll r [] s
  | cons {r s t u : Reading} {n : Node} {ns : List Node} (before : Run r s) (first : Reads s n t)
      (rest : ReadsAll t ns u) : ReadsAll r (n :: ns) u

/-- The members of an object literal, each with the end of the comma after it, stand for all that is
consumed between two readings. -/
inductive ReadsMembers : Reading → List Node → List (Option Nat) → Reading → Prop
  | nil {r : Reading} : ReadsMembers r [] [] r
  | last {r s : Reading} {n : Node} (parsed : Parsed r n s) (member : Reads r n s) :
      ReadsMembers r [n] [none] s
  | cons {r s t : Reading} {n : Node} {ns : List Node} {ends : List (Option Nat)}
      (parsed : Parsed r n s) (member : Reads r n s) (comma : s.token.kind = .comma)
      (rest : ReadsMembers s.advance ns ends t) :
      ReadsMembers r (n :: ns) (some s.token.stop :: ends) t

end

mutual

theorem Reads.run {r s : Reading} {n : Node} : Reads r n s → Run r s
  | .plain _ _ _ _ _ parts => parts.run
  | .hole _ _ _ _ _ => (Step.advance r).run
  | .literal _ _ _ _ _ _ members _ =>
    ((Step.advance r).run.trans members.run).trans (Step.advance _).run

theorem ReadsAll.run {r s : Reading} {ns : List Node} : ReadsAll r ns s → Run r s
  | .nil run => run
  | .cons before first rest => (before.trans first.run).trans rest.run

theorem ReadsMembers.run {r s : Reading} {ns : List Node} {ends : List (Option Nat)} :
    ReadsMembers r ns ends s → Run r s
  | .nil => .refl r
  | .last _ member => member.run
  | .cons _ member _ rest => (member.run.trans (Step.advance _).run).trans rest.run

end

theorem ReadsAll.append {r s t : Reading} {ns ms : List Node} :
    ReadsAll r ns s → ReadsAll s ms t → ReadsAll r (ns ++ ms) t
  | .nil run, .nil run' => .nil (run.trans run')
  | .nil run, .cons before first rest => .cons (run.trans before) first rest
  | .cons before first rest, more => .cons before first (rest.append more)

theorem Reads.all {r s : Reading} {n : Node} (h : Reads r n s) : ReadsAll r [n] s :=
  .cons (.refl r) h (.nil (.refl s))

/-- Some of the nodes stand for parts as well. -/
theorem ReadsAll.sublist {r s : Reading} {ns ms : List Node} (h : ReadsAll r ns s)
    (sub : ms.Sublist ns) : ReadsAll r ms s := by
  induction sub generalizing r with
  | slnil => exact h
  | cons n _ ih =>
    cases h with
    | cons before first rest => exact (ReadsAll.nil (before.trans first.run)).append (ih rest)
  | cons_cons n _ ih =>
    cases h with
    | cons before first rest => exact .cons before first (ih rest)

/-- Adds a member to others that all have a comma. -/
theorem ReadsMembers.append {r s t : Reading} {ns ms : List Node} {ends more : List (Option Nat)} :
    ReadsMembers r ns ends s → none ∉ ends → ReadsMembers s ms more t →
      ReadsMembers r (ns ++ ms) (ends ++ more) t
  | .nil, _, h => h
  | .last _ _, separated, _ => absurd (List.mem_singleton_self none) separated
  | .cons parsed member comma rest, separated, h =>
    .cons parsed member comma
      (rest.append (fun hnone => separated (List.mem_cons_of_mem _ hnone)) h)

/-! ## Roles

What a node stands for does not depend on the role it plays. -/

end Parse

/-- The node in no special role. -/
def Node.plain (n : Node) : Node := n.inRole default

@[simp] theorem Node.plain_inRole (role : Role) (n : Node) : (n.inRole role).plain = n.plain := rfl

@[simp] theorem Node.plain_comp_inRole (role : Role) : Node.plain ∘ Node.inRole role = Node.plain :=
  rfl

namespace Parse

theorem Reads.of_plain {r s : Reading} {n m : Node} (h : Reads r n s) (same : m.plain = n.plain) :
    Reads r m s := by
  have hkind : m.kind = n.kind := (congrArg Node.kind same :)
  have hspan : m.span = n.span := (congrArg Node.span same :)
  have hflags : m.flags = n.flags := (congrArg Node.flags same :)
  have hdetail : m.detail = n.detail := (congrArg Node.detail same :)
  have hmarks : m.marks = n.marks := (congrArg Node.marks same :)
  have hchildren : m.children = n.children := (congrArg Node.children same :)
  have hparts : m.parts = n.parts := (congrArg Node.parts same :)
  cases h with
  | plain kind present span moved ordered parts =>
    exact .plain (hkind ▸ kind) (hflags ▸ present) (hspan ▸ span) moved
      ⟨hparts ▸ ordered.perm, hchildren ▸ ordered.children⟩ parts
  | hole kind present span parts comma =>
    exact .hole (hkind ▸ kind) (hflags ▸ present) (hspan ▸ span) (hparts ▸ parts) comma
  | literal kind present unmarked span detail opened members closed =>
    exact .literal (hkind ▸ kind) (hflags ▸ present) (hmarks ▸ unmarked) (hspan ▸ span)
      (hdetail ▸ detail) opened (hchildren ▸ members) closed

theorem ReadsAll.of_plain {r s : Reading} {ns : List Node} (h : ReadsAll r ns s) :
    ∀ {ms : List Node}, ms.map Node.plain = ns.map Node.plain → ReadsAll r ms s := by
  intro ms same
  match ns, ms, h with
  | [], [], h => exact h
  | n :: ns, m :: ms, .cons before first rest =>
    simp only [List.map_cons, List.cons.injEq] at same
    exact .cons before (first.of_plain same.1) (rest.of_plain same.2)

/-! ## Places -/

theorem Reads.start_eq {r s : Reading} {n : Node} (h : Reads r n s) : n.span.start = r.here := by
  cases h with
  | plain _ _ span => rw [span]
  | hole _ _ span => rw [span]; rfl
  | literal _ _ _ span => rw [span]

theorem Reads.stop_le {r s : Reading} {n : Node} (h : Reads r n s) : n.span.stop ≤ s.lastEnd := by
  cases h with
  | plain _ _ span => exact Nat.le_of_eq (congrArg Span.stop span)
  | hole _ _ span => rw [span]; exact r.here_le_stop
  | literal _ _ _ span => exact Nat.le_of_eq (congrArg Span.stop span)

/-- An ordinary node ends with the last token that was consumed for it. -/
theorem Reads.stop_eq {r s : Reading} {n : Node} (h : Reads r n s)
    (kind : n.kind.isSpecial = false) : n.span.stop = s.lastEnd := by
  cases h with
  | plain _ _ span => rw [span]
  | hole isHole => rcases isHole with isHole | isHole <;> simp [isHole, Kind.isSpecial] at kind
  | literal isLiteral => simp [isLiteral, Kind.isSpecial] at kind

theorem Reads.start_le_stop {r s : Reading} {n : Node} (h : Reads r n s) :
    n.span.start ≤ n.span.stop := by
  cases h with
  | plain _ _ span moved => rw [span]; exact moved.le
  | hole _ _ span => rw [span]; exact Nat.le_refl _
  | literal _ _ _ span _ _ members =>
    have hhere := members.run.here_le
    have hfirst := Nat.le_trans r.here_le_stop r.stop_le_here_advance
    rw [span]
    exact Nat.le_trans (Nat.le_trans hfirst hhere) (Reading.here_le_stop _)

theorem Reads.moved {r s : Reading} {n : Node} (h : Reads r n s) (valid : r.Valid) :
    Moves r s := by
  cases h with
  | plain _ _ _ moved => exact moved
  | hole => exact .advance (.refl r) valid
  | literal _ _ _ _ _ _ members => exact .advance ((Step.advance r).run.trans members.run) valid

/-! ## What has been read so far -/

/-- Since `r` the nodes have been read in order. With `moved` at least one token is consumed, so
that a node may end here. -/
structure Laid (moved : Bool) (r : Reading) (ns : List Node) (s : Reading) : Prop where
  valid : r.Valid
  reads : ReadsAll r ns s
  consumed : moved = true → Moves r s

namespace Laid

variable {moved moved' : Bool} {r s t : Reading} {ns ms : List Node}

theorem start {s : Reading} (valid : s.Valid) : Laid false s [] s :=
  ⟨valid, .nil (.refl s), nofun⟩

theorem end_valid (h : Laid moved r ns s) : s.Valid := h.reads.run.valid h.valid

theorem append (h : Laid moved r ns s) (more : Laid moved' s ms t) :
    Laid (moved || moved') r (ns ++ ms) t where
  valid := h.valid
  reads := h.reads.append more.reads
  consumed hm := by
    rw [Bool.or_eq_true] at hm
    rcases hm with hm | hm
    · exact (h.consumed hm).then_run h.reads.run more.reads.run h.valid
    · exact (more.consumed hm).after h.reads.run h.valid

theorem append_moved (h : Laid moved r ns s) (more : Laid true s ms t) :
    Laid true r (ns ++ ms) t := by
  have := h.append more
  rwa [Bool.or_true] at this

theorem then_run (h : Laid moved r ns s) (run : Run s t) : Laid moved r ns t := by
  have := h.append (⟨h.end_valid, .nil run, nofun⟩ : Laid false _ [] _)
  simpa using this

theorem then_advance (h : Laid moved r ns s) : Laid true r ns s.advance where
  valid := h.valid
  reads := (h.then_run (Step.advance s).run).reads
  consumed _ := .advance h.reads.run h.valid

theorem of_reads (valid : r.Valid) {n : Node} (h : Reads r n s) : Laid true r [n] s :=
  ⟨valid, h.all, fun _ => h.moved valid⟩

theorem of_plain (h : Laid moved r ns s) (same : ms.map Node.plain = ns.map Node.plain) :
    Laid moved r ms s := ⟨h.valid, h.reads.of_plain same, h.consumed⟩

/-- Whoever reads a node consumes a token. -/
theorem of_ne_nil (h : Laid moved r ns s) (some : ns ≠ []) : Laid true r ns s := by
  refine ⟨h.valid, h.reads, fun _ => ?_⟩
  cases h.reads with
  | nil => exact absurd rfl some
  | cons before first rest =>
    have valid := before.valid h.valid
    exact ((first.moved valid).then_run first.run rest.run valid).after before h.valid

theorem after_run (run : Run r s) (valid : r.Valid) (h : Laid moved s ns t) :
    Laid moved r ns t := by
  have := (⟨valid, .nil run, nofun⟩ : Laid false r [] s).append h
  simpa using this

/-- What was read can be taken to begin at the start of its first node. -/
theorem since_start {n : Node} (h : Laid moved r (n :: ns) s) :
    ∃ r', Run r r' ∧ n.span.start = r'.here ∧ Laid true r' (n :: ns) s := by
  obtain ⟨valid, reads, -⟩ := h
  cases reads with
  | cons before first rest =>
    have valid' := before.valid valid
    have node := of_reads valid' first
    exact ⟨_, before, first.start_eq,
      node.append (⟨node.reads.run.valid valid', rest, nofun⟩ : Laid false _ _ _)⟩

/-- A list of what was read, in any roles. -/
theorem list (h : Laid moved r ns s) (same : ms.map Node.plain = ns.map Node.plain) :
    Laid moved r ms s :=
  ⟨h.valid, h.reads.of_plain same, h.consumed⟩

/-- It need not matter whether anything was consumed. -/
theorem loose (h : Laid moved r ns s) (same : ms.map Node.plain = ns.map Node.plain) :
    Laid false r ms s :=
  ⟨h.valid, h.reads.of_plain same, nofun⟩

/-- Some of what was read. -/
theorem sublist (h : Laid moved r ns s) (sub : ms.Sublist ns) : Laid moved r ms s :=
  ⟨h.valid, h.reads.sublist sub, h.consumed⟩

/-- A node from where reading began to where it stands, with what was read as its parts. -/
theorem nodeMarked (h : Laid true r ns s) {n : Node} (before within : List Mark)
    (front back : List Node) (kind : n.kind.isSpecial = false) (present : n.flags.missing = false)
    (span : n.span = ⟨r.here, s.lastEnd⟩) (children : n.children = front ++ back)
    (marks : n.marks = before ++ within)
    (same : (before.map Mark.leaf ++ front ++ within.map Mark.leaf ++ back).map Node.plain =
      ns.map Node.plain) : Reads r n s :=
  .plain kind present span (h.consumed rfl) (.marks before within front back children marks)
    (h.reads.of_plain same)

theorem closeMarked (h : Laid true r ns s) {n : Node} (before within : List Mark)
    (front back : List Node) (kind : n.kind.isSpecial = false) (present : n.flags.missing = false)
    (span : n.span = ⟨r.here, s.lastEnd⟩) (children : n.children = front ++ back)
    (marks : n.marks = before ++ within)
    (same : (before.map Mark.leaf ++ front ++ within.map Mark.leaf ++ back).map Node.plain =
      ns.map Node.plain) : Laid true r [n] s :=
  .of_reads h.valid (h.nodeMarked before within front back kind present span children marks same)

/-- A node that keeps its tokens, if it has any, behind its children. -/
theorem node (h : Laid true r ns s) {n : Node} (kind : n.kind.isSpecial = false)
    (present : n.flags.missing = false) (span : n.span = ⟨r.here, s.lastEnd⟩)
    (parts : n.parts.map Node.plain = ns.map Node.plain) : Reads r n s :=
  .plain kind present span (h.consumed rfl) (.all n) (h.reads.of_plain parts)

theorem close (h : Laid true r ns s) {n : Node} (kind : n.kind.isSpecial = false)
    (present : n.flags.missing = false) (span : n.span = ⟨r.here, s.lastEnd⟩)
    (parts : n.parts.map Node.plain = ns.map Node.plain) : Laid true r [n] s :=
  .of_reads h.valid (h.node kind present span parts)

end Laid
end Parse
end FactorySync
