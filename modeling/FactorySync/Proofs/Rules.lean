import FactorySync.Proofs.Layout

/-!
# Rules for parsers

`p.Yields s Q`: wherever `p`, started in the state `s`, leaves a reading without errors, `Q` holds
of its value and the state it leaves. The rules follow the parser from its first step on;
`Parse.Laid` keeps track of what has been read. Since no error is ever dropped, a branch that notes
one needs no argument (`Laid.error`).
-/

namespace FactorySync

open Parse

/-- Whatever node is read for a goal stands for what is consumed. -/
structure Knot.Sound (knot : Knot) : Prop where
  isKnot : ∃ n, knot = Parser.knot n
  leads : knot.Leads
  reads : ∀ {goal : Goal} {s : State} {n : Node} {t : State}, s.Valid →
    knot goal s = some (n, t) → t.Clean → Laid true s.toReading [n] t.toReading

namespace Parser

variable {α β : Type} {s : State} {p : Parser α} {f : α → Parser β}
variable {P : α → State → Prop} {Q : β → State → Prop}

/-- What holds of the value and the state a parser ends with, if no error is noted by then. -/
def Yields (p : Parser α) (s : State) (Q : α → State → Prop) : Prop :=
  ∀ ⦃knot : Knot⦄, knot.Sound → ∀ ⦃a : α⦄ ⦃t : State⦄, p.run knot s = some (a, t) → t.Clean → Q a t

theorem run_bind {knot : Knot} {b : β} {u : State} (h : (p >>= f).run knot s = some (b, u)) :
    ∃ a t, p.run knot s = some (a, t) ∧ (f a).run knot t = some (b, u) := by
  rw [run_eq_bind] at h
  obtain ⟨⟨a, t⟩, hp, hf⟩ := Option.bind_eq_some_iff.1 h
  exact ⟨a, t, hp, hf⟩

/-! ## Steps -/

theorem Yields.pure {a : α} (h : P a s) : (pure a : Parser α).Yields s P := by
  intro knot _ b t hrun _
  cases (show some (a, s) = some (b, t) from hrun)
  exact h

theorem Yields.bind (hp : p.Yields s P) (hf : ∀ a t, P a t → (f a).Yields t Q) :
    (p >>= f).Yields s Q := by
  intro knot sound b u hrun clean
  obtain ⟨a, t, ha, hb⟩ := run_bind hrun
  exact hf a t (hp sound ha (((f a).leads sound.leads hb).run.clean_of clean)) sound hb clean

/-- Every parser at least reads on. -/
theorem Yields.leads (p : Parser α) (s : State) : p.Yields s fun _ t => s.Leads t :=
  fun _ sound _ _ hrun _ => p.leads sound.leads hrun

/-- What is found is found by some run. -/
theorem Yields.found (p : Parser α) (s : State) :
    p.Yields s fun a t => ∃ n, p.run (knot n) s = some (a, t) ∧ t.Clean := by
  intro knot sound a t hrun clean
  obtain ⟨n, rfl⟩ := sound.isKnot
  exact ⟨n, hrun, clean⟩

theorem Yields.and_leads (h : p.Yields s P) : p.Yields s fun a t => P a t ∧ s.Leads t :=
  fun _ sound _ _ hrun clean => ⟨h sound hrun clean, p.leads sound.leads hrun⟩

theorem Yields.and {P' : α → State → Prop} (h : p.Yields s P) (h' : p.Yields s P') :
    p.Yields s fun a t => P a t ∧ P' a t :=
  fun _ sound _ _ hrun clean => ⟨h sound hrun clean, h' sound hrun clean⟩

theorem Yields.mono {P' : α → State → Prop} (h : p.Yields s P) (hP : ∀ a t, P a t → P' a t) :
    p.Yields s P' :=
  fun _ sound _ _ hrun clean => hP _ _ (h sound hrun clean)

section Views

variable {f : Bool → Parser β} {g : State → α} {h : α → Parser β}

theorem yields_view : (view g >>= h).Yields s Q ↔ (h (g s)).Yields s Q := Iff.rfl

theorem yields_here {f : Nat → Parser β} :
    (here >>= f).Yields s Q ↔ (f s.here).Yields s Q := Iff.rfl

theorem yields_kind {f : Kind → Parser β} :
    (kind >>= f).Yields s Q ↔ (f s.token.kind).Yields s Q := Iff.rfl

theorem yields_token {f : Token → Parser β} : (token >>= f).Yields s Q ↔ (f s.token).Yields s Q :=
  Iff.rfl

theorem yields_remaining {f : List Char → Parser β} :
    (remaining >>= f).Yields s Q ↔ (f s.scanner.fromToken).Yields s Q := Iff.rfl

theorem yields_advance {f : Unit → Parser β} :
    (advance >>= f).Yields s Q ↔ (f ()).Yields { s with toReading := s.advance } Q := Iff.rfl

theorem yields_node {f : Node → Parser β} {k : Kind} {start : Nat} {children : List Node} :
    (node k start children >>= f).Yields s Q ↔
      (f { kind := k, span := ⟨start, s.lastEnd⟩, children }).Yields s Q := Iff.rfl

/-- A token is consumed if it is of the kind asked for. -/
theorem accept_yields {k : Kind} : (accept k).Yields s fun found t =>
    if found then s.token.kind = k ∧ t = { s with toReading := s.advance } else t = s := by
  rw [accept, yields_kind]
  split
  · next hk => exact yields_advance.2 (.pure ⟨hk, rfl⟩)
  · exact .pure rfl

end Views

/-! ## Combined parsers -/

theorem lookAhead_run {knot : Knot} (hk : knot.Leads) (p : Parser α) (s : State) :
    (lookAhead p).run knot s = (p.run knot s).map fun r => (r.1, s) := by
  show (p.run knot s).map (fun r => (r.1, s.backTo r.2)) = _
  refine Option.map_congr fun r hr => ?_
  rw [(p.leads hk hr).backTo]

theorem attempt_run {knot : Knot} (hk : knot.Leads) (p : Parser (Option α)) (s : State) :
    (attempt p).run knot s = (p.run knot s).map fun r => if r.1.isSome then r else (r.1, s) := by
  show (p.run knot s).map (fun r => if r.1.isSome then r else (r.1, s.backTo r.2)) = _
  refine Option.map_congr fun r hr => ?_
  rw [(p.leads hk hr).backTo]

/-- Whatever is read one level deeper comes back up to this level. -/
theorem nested_run {knot : Knot} (hk : knot.Leads) (p : Parser α) (s : State) :
    (nested p).run knot s =
      (p.run knot { s with depth := s.depth + 1 }).map fun r =>
        (r.1, { r.2 with depth := s.depth }) := by
  simp only [nested]
  cases hr : p.run knot { s with depth := s.depth + 1 } with
  | none => rfl
  | some r =>
    have depth := (p.leads hk hr).depth
    simp [depth, countDown, Parser.pure]

theorem Yields.lookAhead (hf : ∀ a, (f a).Yields s Q) : (lookAhead p >>= f).Yields s Q := by
  intro knot sound b u hrun clean
  obtain ⟨a, t, ha, hb⟩ := run_bind hrun
  rw [lookAhead_run sound.leads] at ha
  obtain ⟨r, -, hr⟩ := Option.map_eq_some_iff.1 ha
  cases hr
  exact hf _ sound hb clean

theorem Yields.attempt {p : Parser (Option α)} {P : Option α → State → Prop}
    (found : p.Yields s fun o t => ∀ a, o = some a → P (some a) t) (none : P none s) :
    (attempt p).Yields s P := by
  intro knot sound o u hrun clean
  rw [attempt_run sound.leads] at hrun
  obtain ⟨r, hr, hu⟩ := Option.map_eq_some_iff.1 hrun
  split at hu
  · next hsome =>
    obtain ⟨a, ha⟩ := Option.isSome_iff_exists.1 hsome
    obtain ⟨o', t⟩ := r
    cases hu
    cases ha
    exact found sound hr clean a rfl
  · next hnone =>
    obtain ⟨o', t⟩ := r
    cases hu
    rw [Option.not_isSome_iff_eq_none] at hnone
    cases hnone
    exact none

theorem Yields.nested {P : α → Reading → Prop}
    (h : p.Yields { s with depth := s.depth + 1 } fun a t => P a t.toReading) :
    (nested p).Yields s fun a t => P a t.toReading := by
  intro knot sound a u hrun clean
  rw [nested_run sound.leads] at hrun
  obtain ⟨⟨b, t⟩, hr, hu⟩ := Option.map_eq_some_iff.1 hrun
  cases hu
  have := h sound hr clean
  exact this

theorem Yields.withExtends {P : α → Reading → Prop} {inExtends : Bool}
    (h : p.Yields { s with inExtends } fun a t => P a t.toReading) :
    (withExtends inExtends p).Yields s fun a t => P a t.toReading := by
  intro knot sound a u hrun clean
  obtain ⟨⟨b, t⟩, hr, hu⟩ := Option.map_eq_some_iff.1 hrun
  cases hu
  have := h sound hr clean
  exact this

/-- After giving up nothing is left to be shown. -/
theorem Yields.giveUp {P : α → State → Prop} : (giveUp : Parser α).Yields s P :=
  fun _ _ _ _ hrun _ => nomatch hrun

/-- What every round keeps holds of what a loop has reached; the last round gives the result. -/
theorem Yields.loop {round : α → Parser (α ⊕ β)} (I : α → State → Prop)
    (step : ∀ a s, I a s → (round a).Yields s fun r t => r.elim (I · t) (Q · t))
    {a : α} (start : I a s) : (loop round a).Yields s Q := by
  have rounds : ∀ n a s, I a s → (iterate round n a).Yields s Q := by
    intro n
    induction n with
    | zero => exact fun _ _ _ => .giveUp
    | succ n ih =>
      intro a s ha
      rw [iterate, yields_here]
      refine Yields.bind (step a s ha) fun r t hr => ?_
      cases r with
      | inl a =>
        dsimp only
        rw [yields_here]
        split
        · exact ih a t hr
        · exact .giveUp
      | inr b => exact .pure hr
  rw [Parser.loop, yields_view]
  exact rounds _ a s start

/-! ## Productions -/

/-- The parser yields a node that stands for what it consumes, or for a later part of it. -/
def ReadsNode (p : Parser Node) : Prop :=
  ∀ ⦃s : State⦄, s.Valid → p.Yields s fun n t => Laid true s.toReading [n] t.toReading

/-- The parser yields nodes that stand for parts of what it consumes. -/
def ReadsNodes (p : Parser (List Node)) : Prop :=
  ∀ ⦃s : State⦄, s.Valid → p.Yields s fun ns t => Laid false s.toReading ns t.toReading

/-- Likewise, where at least one token is consumed. -/
def ReadsSome (p : Parser (List Node)) : Prop :=
  ∀ ⦃s : State⦄, s.Valid → p.Yields s fun ns t => Laid true s.toReading ns t.toReading

/-- Likewise, together with the optional lists that are present. -/
def ReadsListed (p : Parser (List Role × List Node)) : Prop :=
  ∀ ⦃s : State⦄, s.Valid → p.Yields s fun ns t => Laid false s.toReading ns.2 t.toReading

/-- Likewise, where at least one token is consumed. -/
def ReadsListedSome (p : Parser (List Role × List Node)) : Prop :=
  ∀ ⦃s : State⦄, s.Valid → p.Yields s fun ns t => Laid true s.toReading ns.2 t.toReading

/-- Likewise, if the parser finds something. -/
def ReadsFound (p : Parser (Option Node)) : Prop :=
  ∀ ⦃s : State⦄, s.Valid → p.Yields s fun found t =>
    ∀ n, found = some n → Laid true s.toReading [n] t.toReading

/-- The parser yields a token that it keeps, and has consumed it. -/
def ReadsMark (p : Parser Mark) : Prop :=
  ∀ ⦃s : State⦄, s.Valid → p.Yields s fun m t => Laid true s.toReading [m.leaf] t.toReading

/-- The parser yields tokens that it keeps. -/
def ReadsMarks (p : Parser (List Mark)) : Prop :=
  ∀ ⦃s : State⦄, s.Valid → p.Yields s fun ms t =>
    Laid false s.toReading (ms.map Mark.leaf) t.toReading

theorem need_reads (goal : Goal) : (need goal).ReadsNode :=
  fun _ valid _ sound _ _ hrun clean => sound.reads valid hrun clean

end Parser

namespace Parse.Laid

open FactorySync.Parser

variable {α β : Type} {s : State} {r : Reading} {ns : List Node} {moved : Bool}
variable {Q : β → State → Prop}

/-- Whatever a step yields, what was read before stays. -/
theorem bind (h : Laid moved r ns s.toReading) {p : Parser α} {P : α → State → Prop}
    (hp : p.Yields s P) {f : α → Parser β}
    (next : ∀ a (t : State), P a t → Laid moved r ns t.toReading → (f a).Yields t Q) :
    (p >>= f).Yields s Q :=
  .bind (hp.and_leads) fun a t ht => next a t ht.1 (h.then_run ht.2.run)

/-- What is consumed without becoming a node. -/
theorem skip (h : Laid moved r ns s.toReading) {p : Parser α} {f : α → Parser β}
    (next : ∀ a (t : State), Laid moved r ns t.toReading → (f a).Yields t Q) :
    (p >>= f).Yields s Q :=
  .bind (.leads p s) fun a t ht => next a t (h.then_run ht.run)

theorem read (h : Laid moved r ns s.toReading) {p : Parser Node} (hp : p.ReadsNode)
    {f : Node → Parser β}
    (next : ∀ n (t : State), Laid true r (ns ++ [n]) t.toReading → (f n).Yields t Q) :
    (p >>= f).Yields s Q :=
  .bind (hp h.end_valid) fun n t hn => next n t (by simpa using h.append hn)

theorem readAll (h : Laid moved r ns s.toReading) {p : Parser (List Node)} (hp : p.ReadsNodes)
    {f : List Node → Parser β}
    (next : ∀ ms (t : State), Laid moved r (ns ++ ms) t.toReading → (f ms).Yields t Q) :
    (p >>= f).Yields s Q :=
  .bind (hp h.end_valid) fun ms t hms => next ms t (by simpa using h.append hms)

theorem readSome (h : Laid moved r ns s.toReading) {p : Parser (List Node)} (hp : p.ReadsSome)
    {f : List Node → Parser β}
    (next : ∀ ms (t : State), Laid true r (ns ++ ms) t.toReading → (f ms).Yields t Q) :
    (p >>= f).Yields s Q :=
  .bind (hp h.end_valid) fun ms t hms => next ms t (by simpa using h.append hms)

theorem readListed (h : Laid moved r ns s.toReading) {p : Parser (List Role × List Node)}
    (hp : p.ReadsListed) {f : List Role × List Node → Parser β}
    (next : ∀ lists ms (t : State), Laid moved r (ns ++ ms) t.toReading →
      (f (lists, ms)).Yields t Q) :
    (p >>= f).Yields s Q :=
  .bind (hp h.end_valid) fun ms t hms => next ms.1 ms.2 t (by simpa using h.append hms)

theorem readListedSome (h : Laid moved r ns s.toReading) {p : Parser (List Role × List Node)}
    (hp : p.ReadsListedSome) {f : List Role × List Node → Parser β}
    (next : ∀ lists ms (t : State), Laid true r (ns ++ ms) t.toReading →
      (f (lists, ms)).Yields t Q) :
    (p >>= f).Yields s Q :=
  .bind (hp h.end_valid) fun ms t hms => next ms.1 ms.2 t (by simpa using h.append hms)

theorem readFound (h : Laid moved r ns s.toReading) {p : Parser (Option Node)}
    (hp : p.ReadsFound) {f : Option Node → Parser β}
    (some : ∀ n (t : State), Laid true r (ns ++ [n]) t.toReading → (f (some n)).Yields t Q)
    (none : ∀ t : State, Laid moved r ns t.toReading → (f none).Yields t Q) :
    (p >>= f).Yields s Q := by
  refine h.bind (hp h.end_valid) fun found t hfound h' => ?_
  cases found with
  | none => exact none t h'
  | some n => exact some n t (by simpa using h.append (hfound n rfl))

theorem readMark (h : Laid moved r ns s.toReading) {p : Parser Mark} (hp : p.ReadsMark)
    {f : Mark → Parser β}
    (next : ∀ m (t : State), Laid true r (ns ++ [m.leaf]) t.toReading → (f m).Yields t Q) :
    (p >>= f).Yields s Q :=
  .bind (hp h.end_valid) fun m t hm => next m t (by simpa using h.append hm)

theorem readMarks (h : Laid moved r ns s.toReading) {p : Parser (List Mark)} (hp : p.ReadsMarks)
    {f : List Mark → Parser β}
    (next : ∀ ms (t : State), Laid moved r (ns ++ ms.map Mark.leaf) t.toReading →
      (f ms).Yields t Q) :
    (p >>= f).Yields s Q :=
  .bind (hp h.end_valid) fun ms t hms => next ms t (by simpa using h.append hms)

theorem advance (h : Laid moved r ns s.toReading) {f : Unit → Parser β}
    (next : ∀ t : State, Laid true r ns t.toReading → (f ()).Yields t Q) :
    (Parser.advance >>= f).Yields s Q :=
  yields_advance.2 (next _ h.then_advance)

theorem passOver (h : Laid moved r ns s.toReading) {p : Problem}
    (more : s.token.kind ≠ .endOfFile) {f : Unit → Parser β}
    (next : ∀ t : State, Laid true r ns t.toReading → (f ()).Yields t Q) :
    (Parser.passOver p >>= f).Yields s Q := by
  refine .bind (P := fun _ t => Laid true r ns t.toReading) ?_ fun _ t ht => next t ht
  intro knot _ a t hrun _
  cases (show some ((), { s with
    toReading := if s.token.kind = .endOfFile then s.toReading else (s.note p).advance }) =
    some (a, t) from hrun)
  rw [if_neg more]
  have whole := h.then_run (Step.passOver p s.toReading more).run
  refine ⟨h.valid, whole.reads, fun _ => .inl ?_⟩
  obtain ⟨text, sound⟩ := h.end_valid
  rw [Reading.advance_lastEnd, Reading.note_token]
  exact Nat.lt_of_le_of_lt h.reads.run.here_le (sound.here_lt_stop more)

theorem error (h : Laid moved r ns s.toReading) {p : Problem}
    {isError : p.template.category = .error} {P : Unit → State → Prop} :
    (note p isError).Yields s P := by
  intro knot _ a t hrun clean
  cases (show some ((), { s with toReading := s.note p }) = some (a, t) from hrun)
  obtain ⟨text, sound⟩ := h.end_valid
  exact absurd clean (sound.not_clean_note isError)

/-- After an error nothing is left to be shown. -/
theorem failed (h : Laid moved r ns s.toReading) {p : Problem}
    {isError : p.template.category = .error} {f : Unit → Parser β} :
    (note p isError >>= f).Yields s Q :=
  .bind (P := fun _ _ => False) h.error fun _ _ => False.elim

/-- A token that is due. -/
theorem expected (h : Laid moved r ns s.toReading) {k : Kind} :
    (expect k).Yields s fun found t => found = true ∧ s.token.kind = k ∧ t = { s with
      toReading := s.advance } := by
  rw [expect, yields_kind]
  split
  · next hk => exact yields_advance.2 (.pure ⟨rfl, hk, rfl⟩)
  · exact h.failed

theorem due (h : Laid moved r ns s.toReading) {k : Kind} :
    (Parser.require k).Yields s fun _ t =>
      s.token.kind = k ∧ t = { s with toReading := s.advance } :=
  .bind h.expected fun _ _ ht => .pure ht.2

theorem require (h : Laid moved r ns s.toReading) {k : Kind} {f : Unit → Parser β}
    (next : ∀ t : State, Laid true r ns t.toReading → (f ()).Yields t Q) :
    (Parser.require k >>= f).Yields s Q := by
  refine .bind h.due fun _ t ht => next t ?_
  obtain ⟨-, rfl⟩ := ht
  exact h.then_advance

end Parse.Laid
end FactorySync
