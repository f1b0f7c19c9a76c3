import FactorySync.Parse.File
import FactorySync.Proofs.Operands
import FactorySync.Proofs.Spelling

/-!
# How binary expressions are grouped

Operators that bind tighter are deeper in the tree (`Node.Grouped`): the operator of a left operand
binds at least as tightly as the one behind it, that of a right operand binds more tightly, and only
`**` follows itself to the right. The loop that joins operands knows of those it has joined that the
operator at their root binds tightly enough for the loop and that no operator of the same or a
higher strength comes next (`Parse.Joining`); each round keeps this (`Joining.join`) and makes a
node that is grouped (`Joining.grouped`).
-/

namespace FactorySync

open Parse

/-! ## Places of operands and operators -/

/-- Only trivia lies between two places. -/
def OnlyTrivia (text : List Char) (a b : Nat) : Prop :=
  a ≤ b ∧ IsTrivia (b = byteLength text) (sliceBytes a b text)

/-- An expression begins at the place, or behind the `async` of a function expression there. -/
def Node.BeginsAt (text : List Char) (pos : Nat) (n : Node) : Prop :=
  n.span.start = pos ∨
    n.BeginsAsync ∧ ∃ stop, sliceBytes pos stop text = "async".toList ∧
      OnlyTrivia text stop n.span.start

theorem OnlyTrivia.refl (text : List Char) (a : Nat) : OnlyTrivia text a a := by
  refine ⟨Nat.le_refl a, ?_⟩
  rw [sliceBytes, Nat.sub_self, takeBytes_zero]
  exact .nil

theorem Node.BeginsAt.inRole {text : List Char} {pos : Nat} {n : Node} {role : Role}
    (h : n.BeginsAt text pos) : (n.inRole role).BeginsAt text pos :=
  h.imp id fun ⟨begins, rest⟩ => ⟨begins.inRole role, rest⟩

/-- The binary expression `n`, whose operator `op` binds at the strength `p`, has these operands. -/
structure Node.Grouped (text : List Char) (n : Node) (op : Mark) (p : Nat) (left right : Node) :
    Prop where
  marks : n.marks = [op]
  children : n.children = [left, right]
  roles : left.role = .left ∧ right.role = .right
  operands : left.IsOperand ∧ right.IsOperand
  left_strength : ∀ q, left.strength? = some q → p ≤ q ∧ op.kind ≠ .asteriskAsterisk
  right_strength : ∀ q, right.strength? = some q →
    p < q ∨ op.kind = .asteriskAsterisk ∧ right.operator? = some .asteriskAsterisk
  /-- The left operand comes first. -/
  first : left.BeginsAt text n.span.start
  /-- Then comes the operator as it is spelled. -/
  before : OnlyTrivia text left.span.stop op.span.start
  spelled : op.span.slice text = op.kind.display.toList
  /-- Then comes the right operand, and nothing more. -/
  behind : ∃ pos, OnlyTrivia text op.span.stop pos ∧ right.BeginsAt text pos
  last : right.span.stop = n.span.stop ∨
    right.flags.missing = true ∧ right.span.isEmpty = true ∧ n.span.stop = op.span.stop

theorem Kind.display_of_strength? {k : Kind} {p : Nat} (h : k.strength? = some p) :
    k.punctuationText? = some k.display ∨ k.wordText? = some k.display := by
  unfold strength? at h
  split at h <;> first | exact .inl rfl | exact .inr rfl | cases h

namespace Parse

variable {r s t : Reading} {left right : Node} {least p : Nat}

/-! ## What a reading stands on -/

/-- The invariant of reading, with words and names spelled as their kind tells. -/
structure Reading.Exact (text : List Char) (r : Reading) : Prop where
  sound : r.Sound text
  word : ∀ w, r.token.kind.wordText? = some w → r.token.source = w.toList
  named : r.token.Named

theorem Step.exact {text : List Char} (h : Step r s) (before : r.Exact text) : s.Exact text := by
  suffices spelled : (∀ w, s.token.kind.wordText? = some w → s.token.source = w.toList) ∧
      s.token.Named from ⟨h.sound before.sound, spelled.1, spelled.2⟩
  cases h with
  | advance => exact ⟨fun _ => Scanner.next_word, Scanner.next_named _⟩
  | rescan way =>
    obtain same | ⟨-, l, again, -, reread⟩ := before.sound.scanner.rescan_cases way
    · rw [Reading.rescan, Reading.token, same]
      exact ⟨before.word, before.named⟩
    · rw [Reading.rescan, Reading.token, again, Scanner.retake]
      refine ⟨fun w hw => ?_, fun hnamed => ?_⟩
      · rw [Scanner.take_kind, Kind.wordText?_of_isReread reread] at hw
        cases hw
      · rw [Scanner.take_kind, Kind.isPropertyWord_of_isReread reread] at hnamed
        cases hnamed
  | note p => simpa using ⟨before.word, before.named⟩
  | passOver p => exact ⟨fun _ => Scanner.next_word, Scanner.next_named _⟩

theorem Run.exact {text : List Char} (h : Run r s) (before : r.Exact text) : s.Exact text := by
  induction h with
  | refl => exact before
  | step _ last ih => exact last.exact ih

theorem Reading.Exact.stands {text : List Char} (h : r.Exact text) : r.token.Stands text :=
  h.sound.scanner.stands h.word

/-- Between the last token and the current one is trivia, once a token has been consumed. -/
theorem Reading.Sound.onlyTrivia {text : List Char} (h : r.Sound text) (started : 0 < r.lastEnd) :
    OnlyTrivia text r.lastEnd r.here := by
  refine ⟨h.lastEnd_le_here, ?_⟩
  obtain ⟨gap, place, size⟩ := h.gap
  have isGap := Trivia.ofChars_isGap (r.lastEnd == 0) (gap ++ r.scanner.fromToken)
  rw [size, List.take_left, List.drop_left] at isGap
  have length := place.after.length_eq
  have whole := h.scanner.length_eq
  have here : r.here = r.lastEnd + byteLength gap := by
    simp only [Reading.here, Reading.token]
    omega
  have ended : r.scanner.fromToken = [] ↔ r.here = byteLength text := by
    rw [← byteLength_eq_zero_iff]
    omega
  rw [here, place.slice, ← here, ← ended]
  cases isGap with
  | trivia isTrivia => exact isTrivia
  | shebang first => exact absurd (beq_iff_eq.1 first) (Nat.ne_of_gt started)

theorem Reading.Begins.beginsAt {text : List Char} {n : Node} (h : r.Begins n)
    (exact : r.Exact text) : n.BeginsAt text r.here := by
  rcases h with here | ⟨isAsync, start, begins⟩
  · exact .inl here
  have more : r.token.kind ≠ .endOfFile := by simp [isAsync]
  have started := Nat.lt_of_le_of_lt (Nat.zero_le _) (exact.sound.here_lt_stop more)
  refine .inr ⟨begins, r.token.stop, ?_, ?_⟩
  · rw [← exact.word "async" (by rw [isAsync]; rfl)]
    exact exact.stands.source.symm
  · rw [start]
    exact exact.sound.advance.onlyTrivia started

/-! ## Operators that are read anew -/

/-- An operator that has been read anew stays what it is. -/
theorem Reading.Valid.rescan_greaterThan_kind (valid : r.Valid) :
    ((r.rescan .greaterThan).rescan .greaterThan).token.kind =
      (r.rescan .greaterThan).token.kind := by
  obtain ⟨text, sound⟩ := valid
  exact sound.scanner.rescan_greaterThan_kind

theorem Rests.stops (h : Rests least (r.rescan .greaterThan)) (valid : r.Valid) :
    Stops least (r.rescan .greaterThan) := by
  rwa [Stops, Rests, valid.rescan_greaterThan_kind]

/-- Operands that are joined so far, with perhaps more behind them. -/
structure Joining (least : Nat) (r : Reading) (n : Node) (s : Reading) : Prop where
  spans : Spans r n s
  operand : n.IsOperand
  root : ∀ k ∈ n.operator?, ∀ q, k.strength? = some q →
    Parser.bindsTighter k q least = true ∧ Stops q s

theorem Joining.of_isUnary {n : Node} (kind : n.kind.isUnary = true) (spans : Spans r n s) :
    Joining least r n s where
  spans
  operand := Node.isOperand_of_isUnary kind
  root k hk := by
    rw [Node.operator?_of_isUnary kind] at hk
    cases hk

/-- Where no operator goes on the operands are complete. -/
theorem Joining.joins (h : Joining least r left s) (valid : r.Valid)
    (rests : Rests least (s.rescan .greaterThan)) :
    Joins least r left (s.rescan .greaterThan) where
  spans := h.spans.rescan .greaterThan
  operand := h.operand
  root k hk q hq := (h.root k hk q hq).1
  stops := rests.stops (h.spans.run.valid valid)

/-- The node that joins two operands by the operator at `s`, up to the end of what is consumed. -/
def joined (r s t : Reading) (left right : Node) : Node where
  kind := .binaryExpression
  span := ⟨r.here, t.lastEnd⟩
  marks := [⟨.operator, s.token.kind, s.token.span⟩]
  children := [left.inRole .left, right.inRole .right]

theorem Joining.join (h : Joining least r left s) (valid : r.Valid)
    (strength : (s.rescan .greaterThan).token.kind.strength? = some p)
    (binds : Parser.bindsTighter (s.rescan .greaterThan).token.kind p least = true)
    (next : Joins p (s.rescan .greaterThan).advance right t) :
    Joining least r (joined r (s.rescan .greaterThan) t left right) t where
  spans := by
    have operator := Step.rescan .greaterThan s
    have more : (s.rescan .greaterThan).token.kind ≠ .endOfFile := fun atEnd => by
      rw [atEnd] at strength
      cases strength
    have before := h.spans.run.trans operator.run
    have consumed := next.spans.run.here_lt_lastEnd (before.valid valid) more
    refine .plain ((before.trans (Step.advance _).run).trans next.spans.run) rfl ?_
    exact Nat.lt_of_le_of_lt before.here_le consumed
  operand := by
    refine ⟨nofun, nofun, fun _ => ?_⟩
    show ((s.rescan .greaterThan).token.kind.strength?).isSome = true
    rw [strength]
    rfl
  root := by
    rintro k hk q hq
    obtain rfl : k = (s.rescan .greaterThan).token.kind := by
      simpa [Node.operator?, joined] using hk.symm
    obtain rfl := Option.some_inj.1 (strength.symm.trans hq)
    exact ⟨binds, next.stops⟩

/-- What is joined is grouped, whatever has been joined before. -/
theorem Joining.grouped {text : List Char} (h : Joining least r left s) (exact : r.Exact text)
    (strength : (s.rescan .greaterThan).token.kind.strength? = some p)
    (isValue : ¬ ((s.rescan .greaterThan).token.kind = .asKeyword ∨
      (s.rescan .greaterThan).token.kind = .satisfiesKeyword))
    (next : Joins p (s.rescan .greaterThan).advance right t) :
    (joined r (s.rescan .greaterThan) t left right).Grouped text
      ⟨.operator, (s.rescan .greaterThan).token.kind, (s.rescan .greaterThan).token.span⟩ p
      (left.inRole .left) (right.inRole .right) where
  marks := rfl
  children := rfl
  roles := ⟨rfl, rfl⟩
  operands := ⟨⟨h.operand.1, h.operand.2, h.operand.3⟩,
    ⟨next.operand.1, next.operand.2, next.operand.3⟩⟩
  left_strength q hq := by
    obtain ⟨k, hk, hkq⟩ := Option.bind_eq_some_iff.1 hq
    have rests := (h.root k hk q hkq).2 p strength
    refine Parser.not_bindsTighter strength (Kind.strength?_le hkq) (Bool.eq_false_iff.2 ?_)
    exact fun binds => isValue (rests binds)
  right_strength q hq := by
    obtain ⟨k, hk, hkq⟩ := Option.bind_eq_some_iff.1 hq
    have le := Kind.strength?_le strength
    rcases Parser.bindsTighter_imp hkq le (next.root k hk q hkq) with lt | ⟨isPower, rfl⟩
    · exact .inl lt
    · exact .inr ⟨Kind.strength?_eq_twelve.1 strength, isPower ▸ hk⟩
  first := (h.spans.begins.beginsAt exact).inRole
  before := by
    show OnlyTrivia text left.span.stop (s.rescan .greaterThan).here
    rw [s.rescan_here .greaterThan]
    rcases h.spans.ends with ⟨stop, started⟩ | ⟨-, empty, here, -⟩
    · rw [stop]
      exact (h.spans.run.exact exact).sound.onlyTrivia (Nat.lt_of_le_of_lt (Nat.zero_le _) started)
    · rw [empty, here]
      exact .refl text r.here
  spelled := by
    have stands := ((Run.step h.spans.run (.rescan .greaterThan s)).exact exact).stands
    refine stands.source.symm.trans ?_
    exact (Kind.display_of_strength? strength).elim (stands.punctuation _) (stands.word _)
  behind := by
    have operator := (Run.step h.spans.run (.rescan .greaterThan s)).exact exact
    have next' := (Step.advance _).exact operator
    have more : (s.rescan .greaterThan).token.kind ≠ .endOfFile := fun atEnd =>
      absurd ((congrArg Kind.strength? atEnd).symm.trans strength) (Option.some_ne_none _).symm
    have started := Nat.lt_of_le_of_lt (Nat.zero_le _) (operator.sound.here_lt_stop more)
    exact ⟨_, next'.sound.onlyTrivia started, (next.spans.begins.beginsAt next').inRole⟩
  last := by
    rcases next.spans.ends with ⟨stop, -⟩ | ⟨missing, empty, -, lastEnd⟩
    · exact .inl stop
    · refine .inr ⟨missing, ?_, lastEnd⟩
      rw [show (right.inRole .right).span = _ from empty]
      exact beq_self_eq_true _

end Parse

namespace Parser

variable {knot : Knot} {s t : State} {n : Node} {least : Nat}

/-- The loop that joins operands keeps its invariant and ends where the next operator is too
loose. -/
theorem binary_joins (hk : knot.Operands) (valid : s.Valid)
    (hrun : (binary least).run knot s = some (n, t)) : Joins least s.toReading n t.toReading := by
  rw [binary, run_here] at hrun
  obtain ⟨first, u, hfirst, hloop⟩ := run_bind hrun
  obtain ⟨kind, spans⟩ := hk.unary valid hfirst
  have start : Joining least s.toReading first u.toReading := .of_isUnary kind spans
  refine loop_keeps (Q := fun n t => Joins least s.toReading n t.toReading)
    (fun left u => Joining least s.toReading left u.toReading)
    (fun {left u r v} h hround => ?_) start hloop
  have before := h.spans.run.trans (Step.rescan .greaterThan u.toReading).run
  rw [run_rescan, run_kind] at hround
  dsimp only at hround
  split at hround
  · next none =>
    cases hround
    exact h.joins valid fun p strength => absurd (none.symm.trans strength) (Option.some_ne_none p).symm
  next p strength =>
  have more : (u.toReading.rescan .greaterThan).token.kind ≠ .endOfFile := fun atEnd =>
    absurd ((congrArg Kind.strength? atEnd).symm.trans strength) (Option.some_ne_none _).symm
  split at hround
  · next binds =>
    split at hround
    · next isType =>
      rw [run_afterLineBreak] at hround
      split at hround
      · cases hround
        exact h.joins valid fun _ _ _ => isType
      · have consumed := Takes.advance more hk.leads (before.valid valid) rfl hround
        rw [run_advance] at hround
        obtain ⟨type, w, htype, hround⟩ := run_bind hround
        obtain ⟨m, x, hnode, hr⟩ := run_bind hround
        cases hnode
        cases hr
        have run := (before.trans (Step.advance _).run).trans (hk.leads htype).run
        refine Joining.of_isUnary ?_ (.plain run rfl (Nat.lt_of_le_of_lt before.here_le consumed))
        dsimp only
        split <;> rfl
    · obtain ⟨mark, w, hmark, hround⟩ := run_bind hround
      cases hmark
      obtain ⟨right, x, hright, hround⟩ := run_bind hround
      cases hround
      have validNext := (before.trans (Step.advance _).run).valid valid
      exact h.join valid strength binds (hk.joins validNext hright)
  · next loose =>
    cases hround
    refine h.joins valid fun q strength' binds => absurd ?_ loose
    obtain rfl := Option.some_inj.1 (strength.symm.trans strength')
    exact binds

/-- What is known of operands holds of them however deep they are nested. -/
theorem knot_operands (n : Nat) : (Parser.knot n).Operands := by
  induction n with
  | zero => exact ⟨knot_leads 0, nofun, nofun, nofun⟩
  | succ n ih =>
    refine ⟨knot_leads (n + 1), fun valid hrun => ?_, fun valid begins hrun => ?_,
      fun valid hrun => ?_⟩
    · exact unary_unaryAt ih valid hrun
    · exact construction_unaryAt ih.leads valid begins hrun
    · exact binary_joins ih valid hrun

end Parser
end FactorySync
