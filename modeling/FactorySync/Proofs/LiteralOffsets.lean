import FactorySync.Proofs.Placement.Files

/-!
# Offsets of object literals

Whatever the text, an object literal keeps one offset for each of its members, and only the last may
be without one (`Node.Separated`). In a file without errors these offsets fill the literal: from the
opening brace to the closing one there is trivia, a member, trivia, a comma, and so on
(`Member.Fill`, by induction on how the members were read), so every offset is that behind the comma
which follows its member.
-/

namespace FactorySync

open Parse

/-- The character stands at an offset of the text. -/
def CharAt (text : List Char) (p : Nat) (c : Char) : Prop := ∃ rest, StandsAt text p (c :: rest)

namespace Parse

/-- A token of one character stands where it says. -/
theorem Reading.Sound.charAt {text : List Char} {r : Reading} (h : r.Sound text) {c : Char}
    (spelled : r.token.kind.punctuationText? = some (String.ofList [c])) :
    CharAt text r.here c := by
  have source : r.token.source = [c] := by
    simpa [Reading.token] using h.scanner.spelled _ spelled
  refine ⟨r.scanner.rest, ?_⟩
  have place := h.scanner.place
  rwa [Scanner.fromToken, show r.scanner.token.source = [c] from source] at place

end Parse

/-! ## Members and commas -/

namespace Member

/-- From `start` to `stop` there is trivia, a member, trivia, the comma whose end is kept with the
member, and so on. The last member may do without a comma. -/
inductive Fill (text : List Char) : (start : Nat) → List Member → (stop : Nat) → Prop
  | nil {start stop : Nat} (blank : OnlyTrivia text start stop) : Fill text start [] stop
  | last {m : Member} {stop : Nat}
      (leading : OnlyTrivia text m.fullStart m.element.span.start)
      (bare : m.separatorEnd = none) (trailing : OnlyTrivia text m.element.span.stop stop) :
      Fill text m.fullStart [m] stop
  | cons {m : Member} {ms : List Member} {p stop : Nat}
      (leading : OnlyTrivia text m.fullStart m.element.span.start)
      (trailing : OnlyTrivia text m.element.span.stop p) (comma : CharAt text p ',')
      (kept : m.separatorEnd = some (p + 1)) (rest : Fill text (p + 1) ms stop) :
      Fill text m.fullStart (m :: ms) stop

namespace Fill

variable {text : List Char} {start stop i : Nat} {ms : List Member} {m m' : Member}

theorem leading (h : Fill text start ms stop) :
    ∀ m ∈ ms, OnlyTrivia text m.fullStart m.element.span.start := by
  induction h with
  | nil => exact nofun
  | last leading => exact List.forall_mem_singleton.2 leading
  | cons leading _ _ _ _ ih => exact List.forall_mem_cons.2 ⟨leading, ih⟩

theorem comma (h : Fill text start ms stop) :
    ∀ m ∈ ms, ∀ e, m.separatorEnd = some e → ∃ comma,
      OnlyTrivia text m.element.span.stop comma ∧ CharAt text comma ',' ∧ e = comma + 1 := by
  induction h with
  | nil => exact nofun
  | last _ bare =>
    refine List.forall_mem_singleton.2 fun e kept => ?_
    rw [bare] at kept
    cases kept
  | cons _ trailing isComma kept _ ih =>
    refine List.forall_mem_cons.2 ⟨fun e kept' => ?_, ih⟩
    exact ⟨_, trailing, isComma, Option.some_inj.1 (kept'.symm.trans kept)⟩

theorem first (h : Fill text start ms stop) (hm : ms[0]? = some m) : m.fullStart = start := by
  cases h with
  | nil => exact nomatch hm
  | last => cases hm; rfl
  | cons => cases hm; rfl

theorem next (h : Fill text start ms stop) (hm : ms[i]? = some m) (hm' : ms[i + 1]? = some m') :
    m.separatorEnd = some m'.fullStart := by
  induction h generalizing i with
  | nil => exact nomatch hm
  | last => exact nomatch hm'
  | cons _ _ _ kept rest ih =>
    cases i with
    | zero =>
      cases hm
      rw [kept, rest.first hm']
    | succ i => exact ih hm hm'

theorem trailing (h : Fill text start ms stop) :
    OnlyTrivia text ((ms.getLast?.map fullStop).getD start) stop := by
  induction h with
  | nil blank => exact blank
  | last _ bare trailing => simpa [fullStop, bare] using trailing
  | @cons m ms p stop _ _ _ kept rest ih =>
    have stops : m.fullStop = p + 1 := by rw [fullStop, kept, Option.getD_some]
    cases ms with
    | nil => simpa [stops] using ih
    | cons => simpa [List.getLast?_cons] using ih

end Fill
end Member

namespace Parse

variable {text : List Char} {r s : Reading}

/-- What is read between the braces of an object literal fills it. -/
theorem ReadsMembers.fill {ns : List Node} {ends : List (Option Nat)}
    (h : ReadsMembers r ns ends s) (sound : r.Sound text) (started : 0 < r.lastEnd)
    (index : Nat) :
    Member.Fill text r.lastEnd (Member.ofElements index r.lastEnd ns ends) s.here := by
  induction ns generalizing r ends index with
  | nil =>
    cases h
    exact .nil (sound.onlyTrivia started)
  | cons n ns ih =>
    cases h with
    | last parsed member =>
      have behind := member.sound sound
      have started' := Nat.lt_of_lt_of_le started (member.run.lastEnd_le sound)
      refine .last (m := { index, element := n, fullStart := r.lastEnd, separatorEnd := none })
        (member.start_eq ▸ sound.onlyTrivia started) rfl ?_
      rw [member.stop_eq parsed.kind]
      exact behind.onlyTrivia started'
    | @cons _ t _ _ _ _ parsed member comma rest =>
      have behind := member.sound sound
      have started' := Nat.lt_of_lt_of_le started (member.run.lastEnd_le sound)
      have stop : t.token.stop = t.here + 1 :=
        behind.stop_eq (c := ',') rfl (by rw [comma]; rfl)
      refine .cons (p := t.here)
        (m := { index, element := n, fullStart := r.lastEnd, separatorEnd := some t.token.stop })
        (member.start_eq ▸ sound.onlyTrivia started) ?_ ?_ (congrArg some stop) ?_
      · rw [member.stop_eq parsed.kind]
        exact behind.onlyTrivia started'
      · exact behind.charAt (by rw [comma]; rfl)
      · rw [← stop]
        exact ih rest behind.advance (by simp [stop]) (index + 1)

end Parse

/-! ## Literals -/

/-- How an object literal lies in the text by the offsets that it keeps. -/
structure Node.Filled (text : List Char) (n : Node) : Prop where
  opened : CharAt text n.span.start '\x7b'
  closed : CharAt text n.closeBraceStart '\x7d' ∧ n.span.stop = n.closeBraceStart + 1
  cuts : ∀ m ∈ n.members, m.element.span.Cuts text
  fullStart_le : ∀ m ∈ n.members, m.fullStart ≤ m.element.span.start
  first : ∀ m, n.members[0]? = some m → m.fullStart = n.openBraceEnd
  /-- A member behind another one begins where the comma of that one ends. -/
  next : ∀ i m m', n.members[i]? = some m → n.members[i + 1]? = some m' →
    ∃ e, m.separatorEnd = some e ∧ m'.fullStart = e ∧ e ≤ m'.element.span.start
  /-- What is kept with a member is the end of the comma behind it. -/
  comma : ∀ m ∈ n.members, ∀ e, m.separatorEnd = some e → ∃ comma,
    m.element.span.stop ≤ comma ∧ CharAt text comma ',' ∧ e = comma + 1 ∧
      OnlyTrivia text m.element.span.stop comma
  leading : ∀ m ∈ n.members, OnlyTrivia text m.fullStart m.element.span.start
  trailing : OnlyTrivia text ((n.members.getLast?.map Member.fullStop).getD n.openBraceEnd)
    n.closeBraceStart

namespace Node

variable {text : List Char} {n : Node} {r s : Reading}

/-- An object literal begins with its opening brace and ends with its closing one. -/
theorem literal_braces (h : Reads r n s) (sound : r.Sound text)
    (isLiteral : n.kind = .objectLiteralExpression) : CharAt text n.span.start '\x7b' ∧
      CharAt text n.closeBraceStart '\x7d' ∧ n.span.stop = n.closeBraceStart + 1 := by
  cases h with
  | plain kind => simp [isLiteral, Kind.isSpecial] at kind
  | hole kind => simp [isLiteral] at kind
  | @literal _ t _ _ _ _ _ span _ opened members closed =>
    have behind := members.run.sound sound.advance
    have stop : n.span.stop = t.here + 1 := by
      rw [span]
      exact behind.stop_eq (c := '\x7d') rfl (by rw [closed]; rfl)
    have close : n.closeBraceStart = t.here := Nat.sub_eq_of_eq_add stop
    rw [close, show n.span.start = r.here by rw [span]]
    exact ⟨sound.charAt (by rw [opened]; rfl), behind.charAt (by rw [closed]; rfl), stop⟩

/-- An object literal that was read without errors is filled. -/
theorem filled_of_reads (h : Reads r n s) (sound : r.Sound text)
    (isLiteral : n.kind = .objectLiteralExpression) : n.Filled text := by
  obtain ⟨last, ends, members, started, opening, closing, hmembers, -⟩ :=
    literal_read h sound isLiteral
  have fill : Member.Fill text n.openBraceEnd n.members n.closeBraceStart := by
    rw [hmembers, opening, closing]
    exact members.fill sound.advance started 0
  obtain ⟨brace, brace'⟩ := literal_braces h sound isLiteral
  refine ⟨brace, brace', fun m mem => ?_, fun m mem => (fill.leading m mem).1, fun m => fill.first,
    fun i m m' hm hm' => ?_, fun m mem e kept => ?_, fill.leading, fill.trailing⟩
  · obtain ⟨i, hi⟩ := List.getElem?_of_mem mem
    exact ((literal_tile h sound isLiteral).2.placed hi).cuts
  · exact ⟨_, fill.next hm hm', rfl, (fill.leading m' (List.mem_of_getElem? hm')).1⟩
  · obtain ⟨comma, trivia, isComma, heq⟩ := fill.comma m mem e kept
    exact ⟨comma, trivia.1, isComma, heq, trivia⟩

end Node

namespace SourceFile

/-- The offsets of every object literal fit its members; in a file without errors they fill it. -/
theorem literals_filled (path : String) (text : List Char) :
    (∀ n, (parse path text).tree.Contains n → n.kind = .objectLiteralExpression → n.Separated) ∧
    ((parse path text).hasErrors = false → ∀ n, (parse path text).tree.Contains n →
      n.kind = .objectLiteralExpression → n.Filled text) := by
  refine ⟨fun n found isLiteral => (made_of_contains found).separated isLiteral,
    fun clean n found isLiteral => ?_⟩
  obtain ⟨r, s, sound, reads⟩ :=
    reads_of_contains clean found fun isFile => by rw [isLiteral] at isFile; cases isFile
  exact Node.filled_of_reads reads sound isLiteral

/-- A shorthand, a method and a spread, with comments around the commas. -/
def commentedCommas : List Char :=
  "(\x7b a/*,*/, b() \x7b\x7d // \x7d\n, /**/ ...c /*,*/ \x7d);".toList

theorem commentedCommas_filled : ∃ n,
    (parse "a.ts" commentedCommas).hasErrors = false ∧
    (parse "a.ts" commentedCommas).tree.Contains n ∧ n.kind = .objectLiteralExpression ∧
    n.members.map (·.separatorEnd) = [some 10, some 24, none] ∧ n.Separated ∧
    n.Filled commentedCommas := by
  obtain ⟨clean, test⟩ : (parse "a.ts" commentedCommas).hasErrors = false ∧
      ((parse "a.ts" commentedCommas).tree.children.head?.any fun statement =>
        statement.children.head?.any fun inner => inner.children.head?.any fun n =>
          n.kind == .objectLiteralExpression &&
            n.members.map (·.separatorEnd) == [some 10, some 24, none]) = true := by
    decide +kernel
  simp only [Option.any_eq_true, Bool.and_eq_true, beq_iff_eq] at test
  obtain ⟨statement, hstatement, inner, hinner, n, hn, isLiteral, commas⟩ := test
  have found : (parse "a.ts" commentedCommas).tree.Contains n :=
    .child (List.mem_of_head? hstatement) (.child (List.mem_of_head? hinner)
      (.child (List.mem_of_head? hn) (.self n)))
  obtain ⟨separated, filled⟩ := literals_filled "a.ts" commentedCommas
  exact ⟨n, clean, found, isLiteral, commas, separated n found isLiteral,
    filled clean n found isLiteral⟩

end SourceFile
end FactorySync
