import FactorySync.Parse.Declarations
import FactorySync.Proofs.Operands

/-!
# Where passing over a construct ends

A construct outside the grammar is passed over token by token. `Scanner.Passes` says which tokens
leave the counter of brackets where it was, and `Scanner.Skips` which stretch of tokens makes up one
construct in the eyes of the parser: it ends with the first `;` outside of brackets, or with the
brace that closes the outermost bracket, unless `catch`, `finally` or the `while` of a `do` follows.
Passing over a construct leads to exactly this end (`Parser.unsupportedStatement_skips`).
-/

namespace FactorySync

open Parse

namespace Kind

def opensBracket (k : Kind) : Bool := k == .openBrace || k == .openParen || k == .openBracket

def closesBracket (k : Kind) : Bool := k == .closeBrace || k == .closeParen || k == .closeBracket

/-- What neither opens nor closes anything, and does not end the file. -/
def isPlain (k : Kind) : Bool :=
  !(k.opensBracket || k.closesBracket || k == .templateHead || k == .endOfFile)

/-- What goes on with a construct that begins with `word`, behind the brace that might end it. -/
def continues (word k : Kind) : Bool :=
  k == .catchKeyword || k == .finallyKeyword || (word == .doKeyword && k == .whileKeyword)

end Kind

/-- The state when the scanner has moved on to `r`, and the last consumed token ended at `e`. -/
def Parse.State.movedTo (s : State) (r : Scanner) (e : Nat) : State :=
  { s with toReading := { s.toReading with scanner := r, lastEnd := e } }

theorem Parse.State.movedTo_scanner (s : State) (r : Scanner) (e : Nat) :
    (s.movedTo r e).scanner = r := rfl

theorem Parse.State.movedTo_token (s : State) (r : Scanner) (e : Nat) :
    (s.movedTo r e).token = r.token := rfl

namespace Scanner

/-! ## Moving on -/

theorem stop_le_next (s : Scanner) : s.token.stop ≤ s.next.token.start :=
  Reading.stop_le_here_advance { scanner := s }

/-- Some tokens further on, each perhaps read anew. -/
inductive Ahead (r : Scanner) : Scanner → Prop
  | refl : Ahead r r
  | next {s : Scanner} (h : Ahead r s) : Ahead r s.next
  | rescan {s : Scanner} (h : Ahead r s) (way : Rescan) : Ahead r (s.rescan way)

namespace Ahead

variable {r s t : Scanner} {text : List Char}

theorem trans (h : r.Ahead s) (h' : s.Ahead t) : r.Ahead t := by
  induction h' with
  | refl => exact h
  | next _ ih => exact .next ih
  | rescan _ way ih => exact .rescan ih way

theorem sound (h : r.Ahead s) (sound : r.Sound text) : s.Sound text := by
  induction h with
  | refl => exact sound
  | next _ ih => exact ih.next
  | rescan _ way ih => exact ih.rescan way

theorem file_eq (h : r.Ahead s) : s.file = r.file := by
  induction h with
  | refl => rfl
  | next _ ih => exact (extends_next _).file.trans ih
  | rescan _ way ih => exact (extends_rescan way _).file.trans ih

theorem start_le (h : r.Ahead s) : r.token.start ≤ s.token.start := by
  induction h with
  | refl => exact Nat.le_refl _
  | @next s _ ih => exact Nat.le_trans ih (Nat.le_trans (Nat.le_add_right _ _) (stop_le_next s))
  | rescan _ way ih => rwa [rescan_start]

end Ahead

/-! ## Constructs -/

/-- Where reading goes on behind a `\x7d` that ends the substitution of a template. -/
def nextInTemplate (s : Scanner) : Scanner := (s.rescan .template).next

/-- Tokens at `depth` brackets that leave as many open. The flag tells whether they begin in the
substitution of a template; then they end behind that template. Outside of all brackets a brace may
not close, and there is no `;`. -/
inductive Passes : (depth : Nat) → (inTemplate : Bool) → Scanner → Scanner → Prop
  | nil {depth : Nat} (r : Scanner) : Passes depth false r r
  | token {depth : Nat} {inTemplate : Bool} {r s : Scanner} (plain : r.token.kind.isPlain = true)
    (goesOn : depth = 0 → r.token.kind ≠ .semicolon) (rest : Passes depth inTemplate r.next s) :
    Passes depth inTemplate r s
  | brackets {depth : Nat} {inTemplate : Bool} {r s t : Scanner}
    (opens : r.token.kind.opensBracket = true) (inner : Passes (depth + 1) false r.next s)
    (closes : s.token.kind.closesBracket = true) (goesOn : depth = 0 → s.token.kind ≠ .closeBrace)
    (rest : Passes depth inTemplate s.next t) : Passes depth inTemplate r t
  | template {depth : Nat} {inTemplate : Bool} {r s t : Scanner}
    (head : r.token.kind = .templateHead) (pieces : Passes depth true r.next s)
    (rest : Passes depth inTemplate s t) : Passes depth inTemplate r t
  | middle {depth : Nat} {r s : Scanner} (brace : r.token.kind = .closeBrace)
    (more : (r.rescan .template).token.kind ≠ .templateTail)
    (rest : Passes depth true r.nextInTemplate s) : Passes depth true r s
  | tail {depth : Nat} {r : Scanner} (brace : r.token.kind = .closeBrace)
    (last : (r.rescan .template).token.kind = .templateTail) : Passes depth true r r.nextInTemplate

theorem Passes.ahead {depth : Nat} {inTemplate : Bool} {r s : Scanner}
    (h : Passes depth inTemplate r s) : r.Ahead s := by
  induction h with
  | nil => exact .refl
  | token _ _ _ ih => exact .trans (.next .refl) ih
  | brackets _ _ _ _ _ inner ih => exact .trans (.trans (.next .refl) inner) (.trans (.next .refl) ih)
  | template _ _ _ pieces ih => exact .trans (.trans (.next .refl) pieces) ih
  | middle _ _ _ ih => exact .trans (.next (.rescan .refl .template)) ih
  | tail => exact .next (.rescan .refl .template)

/-- A plain token that does not end the stretch can be left out in front. -/
theorem Passes.next {depth : Nat} {inTemplate : Bool} {r s : Scanner}
    (h : Passes depth inTemplate r s) (plain : r.token.kind.isPlain = true) (goesOn : s ≠ r) :
    Passes depth inTemplate r.next s := by
  cases h with
  | nil => exact absurd rfl goesOn
  | token _ _ rest => exact rest
  | brackets opens => simp [Kind.isPlain, opens] at plain
  | template head => simp [head, Kind.isPlain] at plain
  | middle brace => exact absurd (congrArg Kind.isPlain brace ▸ plain) (by decide)
  | tail brace => exact absurd (congrArg Kind.isPlain brace ▸ plain) (by decide)

/-- The tokens behind `word`, up to the one that ends the construct that begins with it. -/
inductive Skips (word : Kind) : Scanner → Scanner → Prop
  | semicolon {r s : Scanner} (passes : Passes 0 false r s) (ends : s.token.kind = .semicolon) :
    Skips word r s
  | brace {r s t : Scanner} (passes : Passes 0 false r s)
    (opens : s.token.kind.opensBracket = true) (inner : Passes 1 false s.next t)
    (closes : t.token.kind = .closeBrace) (last : word.continues t.next.token.kind = false) :
    Skips word r t
  | more {r s t u : Scanner} (passes : Passes 0 false r s)
    (opens : s.token.kind.opensBracket = true) (inner : Passes 1 false s.next t)
    (closes : t.token.kind = .closeBrace) (more : word.continues t.next.token.kind = true)
    (rest : Skips word t.next u) : Skips word r u

theorem Skips.ahead {word : Kind} {r s : Scanner} (h : Skips word r s) : r.Ahead s := by
  induction h with
  | semicolon passes => exact passes.ahead
  | brace passes _ inner => exact passes.ahead.trans (.trans (.next .refl) inner.ahead)
  | more passes _ inner _ _ _ ih =>
    exact passes.ahead.trans (.trans (.trans (.next .refl) inner.ahead) (.trans (.next .refl) ih))

/-- The name of a construct is one of its tokens. -/
theorem Skips.next {word : Kind} {r s : Scanner} (h : Skips word r s)
    (name : r.token.kind = .identifier) : Skips word r.next s := by
  have plain : r.token.kind.isPlain = true := by rw [name]; rfl
  cases h with
  | semicolon passes ends =>
    refine .semicolon (passes.next plain ?_) ends
    rintro rfl
    exact nomatch name.symm.trans ends
  | brace passes opens inner closes last =>
    refine .brace (passes.next plain ?_) opens inner closes last
    rintro rfl
    simp [name, Kind.opensBracket] at opens
  | more passes opens inner closes more rest =>
    refine .more (passes.next plain ?_) opens inner closes more rest
    rintro rfl
    simp [name, Kind.opensBracket] at opens

end Scanner

/-- A node for a construct outside the grammar. -/
structure Node.Passed (n : Node) (word : Kind) (span : Span) (modifiers : Modifiers) : Prop where
  kind : n.kind = .unsupportedStatement
  detail : n.detail = .keyword word
  span : n.span = span
  modifiers : n.modifiers = modifiers

namespace Parser

variable {α β : Type} {knot : Knot} {s t : State} {word : Kind} {k : Skipping}

/-! ## Rounds -/

section Rounds

variable {round : α → Parser (α ⊕ β)} {a a' : α} {b : β} {n : Nat} {r : β × State}

/-- A loop that comes to an end has had a first round. -/
theorem iterate_run (hrun : (iterate round n a).run knot s = some r) :
    ∃ m x u, n = m + 1 ∧ (round a).run knot s = some (x, u) ∧
      match x with
      | .inl a' => s.here < u.here ∧ (iterate round m a').run knot u = some r
      | .inr b => r = (b, u) := by
  cases n with
  | zero => exact nomatch hrun
  | succ n =>
    rw [iterate, run_here] at hrun
    obtain ⟨x, u, hround, hrest⟩ := run_bind hrun
    refine ⟨n, x, u, rfl, hround, ?_⟩
    cases x with
    | inl a' =>
      rw [run_here] at hrest
      split at hrest
      · next consumes => exact ⟨consumes, hrest⟩
      · cases hrest
    | inr b =>
      cases hrest
      rfl

theorem iterate_inl (h : (round a).run knot s = some (.inl a', t))
    (hrun : (iterate round n a).run knot s = some r) :
    ∃ m, (iterate round m a').run knot t = some r := by
  obtain ⟨m, x, u, -, hround, rest⟩ := iterate_run hrun
  cases h.symm.trans hround
  exact ⟨m, rest.2⟩

theorem iterate_inr (h : (round a).run knot s = some (.inr b, t))
    (hrun : (iterate round n a).run knot s = some r) : r = (b, t) := by
  obtain ⟨m, x, u, -, hround, rest⟩ := iterate_run hrun
  cases h.symm.trans hround
  exact rest

theorem loop_run {round : α → Parser (α ⊕ β)} {a : α} :
    (loop round a).run knot s = (iterate round (s.size + 2) a).run knot s := rfl

end Rounds

/-! ## One token -/

section Token

variable {r : Scanner} {e : Nat}

theorem skipToken_run : (skipToken k).run knot (s.movedTo r e) =
    some (.inl { k with previous := r.token.kind }, s.movedTo r.next r.token.stop) := rfl

/-- What is plain changes neither the counter nor the open templates. -/
theorem skipRound_plain (plain : r.token.kind.isPlain = true)
    (goesOn : k.depth = 0 → r.token.kind ≠ .semicolon) :
    ∃ k', (skipRound word k).run knot (s.movedTo r e) =
        some (.inl k', s.movedTo r.next r.token.stop) ∧
      k'.depth = k.depth ∧ k'.templates = k.templates := by
  rw [skipRound, run_kind]
  split
  case h_6 semicolon =>
    rw [if_neg fun outside => goesOn outside semicolon]
    exact ⟨_, skipToken_run, rfl, rfl⟩
  case h_7 =>
    split
    · exact ⟨_, skipToken_run, rfl, rfl⟩
    · exact ⟨_, rfl, rfl, rfl⟩
  case h_11 => exact ⟨_, skipToken_run, rfl, rfl⟩
  all_goals next h => exact absurd (congrArg Kind.isPlain h ▸ plain) (by decide)

theorem skipRound_opens (opens : r.token.kind.opensBracket = true) :
    (skipRound word k).run knot (s.movedTo r e) =
      some (.inl { k with depth := k.depth + 1, previous := r.token.kind },
        s.movedTo r.next r.token.stop) := by
  have opens : (r.token.kind = .openBrace ∨ r.token.kind = .openParen) ∨
      r.token.kind = .openBracket := by
    simpa [Kind.opensBracket] using opens
  rw [skipRound, run_kind, State.movedTo_token]
  obtain (h | h) | h := opens
  all_goals
    rw [h]
    dsimp only
    rw [skipToken_run, h]

theorem skipRound_templateHead (head : r.token.kind = .templateHead) :
    (skipRound word k).run knot (s.movedTo r e) =
      some (.inl { k with templates := k.depth :: k.templates, previous := r.token.kind },
        s.movedTo r.next r.token.stop) := by
  rw [skipRound, run_kind, State.movedTo_token, head]
  dsimp only
  rw [skipToken_run, head]

/-- A brace goes on with the template whose substitution was opened at this depth. -/
theorem skipRound_inTemplate (brace : r.token.kind = .closeBrace)
    (opened : k.templates.head? = some k.depth) :
    (skipRound word k).run knot (s.movedTo r e) =
      some (.inl { k with
          previous := .closeBrace
          templates := if (r.rescan .template).token.kind = .templateTail then
            k.templates.tail else k.templates },
        s.movedTo r.nextInTemplate (r.rescan .template).token.stop) := by
  rw [skipRound, run_kind, State.movedTo_token, brace]
  dsimp only
  rw [if_pos opened]
  rfl

/-- Any other bracket closes the one that was opened last. -/
theorem skipRound_closes {d : Nat} (closes : r.token.kind.closesBracket = true)
    (depth : k.depth = d + 1) (between : ∀ x ∈ k.templates.head?, x ≤ d)
    (goesOn : d = 0 → r.token.kind ≠ .closeBrace) :
    (skipRound word k).run knot (s.movedTo r e) =
      some (.inl { k with depth := d, previous := r.token.kind },
        s.movedTo r.next r.token.stop) := by
  have closes : (r.token.kind = .closeBrace ∨ r.token.kind = .closeParen) ∨
      r.token.kind = .closeBracket := by
    simpa [Kind.closesBracket] using closes
  have notTemplate : k.templates.head? ≠ some k.depth := fun h => by
    have := between k.depth h
    omega
  have positive : k.depth ≠ 0 := by omega
  rw [skipRound, run_kind, State.movedTo_token]
  obtain (h | h) | h := closes
  · have inside : d ≠ 0 := fun outside => goesOn outside h
    rw [h]
    dsimp only
    rw [if_neg notTemplate, if_neg positive, depth]
    change (if d = 0 then _ else skipToken { k with depth := d }).run knot _ = _
    rw [if_neg inside, skipToken_run, h]
  all_goals
    rw [h]
    dsimp only
    rw [if_neg positive, depth]
    change (skipToken { k with depth := d }).run knot _ = _
    rw [skipToken_run, h]

/-- The brace that closes the outermost bracket ends the construct, or the construct goes on. -/
theorem skipRound_lastBrace (brace : r.token.kind = .closeBrace) (depth : k.depth = 1)
    (templates : k.templates = []) {more : Bool}
    (next : word.continues r.next.token.kind = more) :
    (skipRound word k).run knot (s.movedTo r e) =
      some (if more then .inl { k with depth := 0, previous := .closeBrace }
        else .inr k.identifiers.reverse, s.movedTo r.next r.token.stop) := by
  subst next
  rw [skipRound, run_kind, State.movedTo_token, brace]
  dsimp only
  rw [templates, depth]
  change (skipLastBrace word _).run knot _ = _
  rw [skipLastBrace, run_advance, run_kind]
  change (if word.continues r.next.token.kind = true then _ else _ : Parser _).run _ _ = _
  split
  · rfl
  · rfl

theorem skipRound_semicolon (semicolon : r.token.kind = .semicolon) (depth : k.depth = 0) :
    (skipRound word k).run knot (s.movedTo r e) =
      some (.inr k.identifiers.reverse, s.movedTo r.next r.token.stop) := by
  rw [skipRound, run_kind, State.movedTo_token, semicolon]
  dsimp only
  rw [if_pos depth]
  rfl

end Token

/-! ## A stretch of tokens -/

section Stretch

variable {r r' : Scanner} {n e : Nat} {result : List Node × State}

/-- Rounds over tokens that leave the brackets as they are come to the end of these. -/
theorem skip_passes {depth : Nat} {inTemplate : Bool} {templates : List Nat}
    (passes : r.Passes depth inTemplate r')
    (hrun : (iterate (skipRound word) n k).run knot (s.movedTo r e) = some result)
    (hdepth : k.depth = depth)
    (htemplates : k.templates = if inTemplate then depth :: templates else templates)
    (between : inTemplate = false → ∀ x ∈ templates.head?, x < depth) :
    ∃ m k' e, k'.depth = depth ∧ k'.templates = templates ∧
      (iterate (skipRound word) m k').run knot (s.movedTo r' e) = some result := by
  induction passes generalizing k n e templates with
  | nil r => exact ⟨n, k, e, hdepth, htemplates, hrun⟩
  | token plain goesOn rest ih =>
    obtain ⟨k', hround, depth', templates'⟩ := skipRound_plain plain (hdepth ▸ goesOn)
    obtain ⟨m, hrun⟩ := iterate_inl hround hrun
    exact ih hrun (depth'.trans hdepth) (templates'.trans htemplates) between
  | @brackets depth inTemplate _ _ _ opens inner closes goesOn rest ihInner ih =>
    have below : ∀ x ∈ k.templates.head?, x ≤ depth := by
      rw [htemplates]
      cases inTemplate with
      | true => exact fun x hx => Nat.le_of_eq (Option.some_inj.1 hx).symm
      | false => exact fun x hx => Nat.le_of_lt (between rfl x hx)
    obtain ⟨m, hrun⟩ := iterate_inl (skipRound_opens opens) hrun
    obtain ⟨m, k', e, depth', templates', hrun⟩ := ihInner hrun
      (congrArg (· + 1) hdepth) rfl fun _ x hx => Nat.lt_succ_of_le (below x hx)
    obtain ⟨m, hrun⟩ := iterate_inl
      (skipRound_closes closes depth' (templates' ▸ below) goesOn) hrun
    exact ih hrun rfl (templates'.trans htemplates) between
  | template head pieces rest ihPieces ih =>
    obtain ⟨m, hrun⟩ := iterate_inl (skipRound_templateHead head) hrun
    obtain ⟨m, k', e, depth', templates', hrun⟩ := ihPieces hrun hdepth
      (congrArg (· :: k.templates) hdepth) nofun
    exact ih hrun depth' (templates'.trans htemplates) between
  | middle brace more rest ih =>
    have opened : k.templates.head? = some k.depth := by rw [htemplates, hdepth]; rfl
    obtain ⟨m, hrun⟩ := iterate_inl (skipRound_inTemplate brace opened) hrun
    exact ih hrun hdepth ((if_neg more).trans htemplates) nofun
  | tail brace last =>
    have opened : k.templates.head? = some k.depth := by rw [htemplates, hdepth]; rfl
    obtain ⟨m, hrun⟩ := iterate_inl (skipRound_inTemplate brace opened) hrun
    have popped : k.templates.tail = templates := by rw [htemplates]; rfl
    rw [if_pos last, popped] at hrun
    exact ⟨m, { k with templates, previous := .closeBrace }, _, hdepth, rfl, hrun⟩

/-- Rounds from outside of all brackets to the brace that closes the outermost one. -/
theorem skip_outermost {m t : Scanner} (passes : r.Passes 0 false m)
    (opens : m.token.kind.opensBracket = true) (inner : m.next.Passes 1 false t)
    (hrun : (iterate (skipRound word) n k).run knot (s.movedTo r e) = some result)
    (depth : k.depth = 0) (templates : k.templates = []) :
    ∃ n' k' e', k'.depth = 1 ∧ k'.templates = [] ∧
      (iterate (skipRound word) n' k').run knot (s.movedTo t e') = some result := by
  obtain ⟨n', k', e', depth', templates', hrun⟩ :=
    skip_passes passes hrun depth templates fun _ => nofun
  obtain ⟨n', hrun⟩ := iterate_inl (skipRound_opens opens) hrun
  exact skip_passes inner hrun (congrArg (· + 1) depth') templates' fun _ => nofun

/-- Passing over a construct ends behind its last token. -/
theorem skip_skips (skips : r.Skips word r')
    (hrun : (iterate (skipRound word) n k).run knot (s.movedTo r e) = some result)
    (depth : k.depth = 0) (templates : k.templates = []) :
    result.2 = s.movedTo r'.next r'.token.stop := by
  induction skips generalizing k n e with
  | semicolon passes ends =>
    obtain ⟨m, k', e, depth', -, hrun⟩ := skip_passes passes hrun depth templates fun _ => nofun
    rw [iterate_inr (skipRound_semicolon ends depth') hrun]
  | brace passes opens inner closes last =>
    obtain ⟨m, k', e, depth', templates', hrun⟩ :=
      skip_outermost passes opens inner hrun depth templates
    rw [iterate_inr (skipRound_lastBrace closes depth' templates' last) hrun]
  | more passes opens inner closes more rest ih =>
    obtain ⟨m, k', e, depth', templates', hrun⟩ :=
      skip_outermost passes opens inner hrun depth templates
    obtain ⟨m, hrun⟩ := iterate_inl (skipRound_lastBrace closes depth' templates' more) hrun
    exact ih hrun rfl templates'

end Stretch

/-! ## The whole construct -/

variable {r r' : Scanner}

variable (knot) in
/-- What may be the name of a construct is passed over first. -/
theorem unsupportedName_run {e : Nat} (skips : r.Skips word r') :
    ∃ ns r₁ e₁, (unsupportedName word).run knot (s.movedTo r e) = some (ns, s.movedTo r₁ e₁) ∧
      r₁.Skips word r' := by
  rw [unsupportedName, run_kind, State.movedTo_token]
  split
  · next named =>
    have name : r.token.kind = .identifier := beq_iff_eq.1 (Bool.and_eq_true_iff.1 named).2
    exact ⟨_, _, _, rfl, skips.next name⟩
  · exact ⟨_, _, _, rfl, skips⟩

theorem passOver_run {p : Problem} (more : s.token.kind ≠ .endOfFile) :
    (passOver p).run knot s = some ((),
      State.movedTo { s with toReading := s.note p } s.scanner.next s.token.stop) := by
  show some ((), { s with toReading :=
    if s.token.kind = Kind.endOfFile then s.toReading else (s.note p).advance }) = _
  rw [if_neg more, Reading.advance, Reading.note_scanner, Reading.note_token]
  rfl

/-- A construct is passed over as a whole, and nothing more is. -/
theorem unsupportedStatement_skips {start : Nat} {modifiers : Modifiers} {n : Node}
    (more : s.token.kind ≠ .endOfFile) (skips : s.scanner.next.Skips s.token.kind r')
    (hrun : (unsupportedStatement start modifiers).run knot s = some (n, t)) :
    n.Passed s.token.kind ⟨start, r'.token.stop⟩ modifiers ∧
      t = State.movedTo { s with toReading := s.note (.unsupported s.token.kind.display) }
        r'.next r'.token.stop := by
  rw [unsupportedStatement, run_kind, run_eq_bind, passOver_run more] at hrun
  obtain ⟨name, r₁, e₁, hname, skips⟩ := unsupportedName_run knot
    (s := { s with toReading := s.note (.unsupported s.token.kind.display) }) (e := s.token.stop) skips
  rw [Option.bind_some, run_eq_bind, hname] at hrun
  obtain ⟨identifiers, v, hloop, hrun⟩ := run_bind hrun
  rw [loop_run] at hloop
  have ends := skip_skips skips hloop rfl rfl
  cases hrun
  dsimp only at ends
  subst ends
  exact ⟨⟨rfl, rfl, rfl, rfl⟩, rfl⟩

end Parser
end FactorySync
