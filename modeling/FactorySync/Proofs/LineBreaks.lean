import FactorySync.Proofs.Splices
import FactorySync.Proofs.Tiling
import FactorySync.Proofs.TokenEnds

/-!
# Texts of which every line feed follows a carriage return

`Returned` says so of a text. Such a text may be cut anywhere but between the two characters of a
line break (`NotFeed`), and pieces of the kind can be put together in any order, so a batch of edits
that is cut so and brings only such pieces keeps the line breaks (`Edit.applyAll_returned`). No
token ends inside a line break; hence neither does a node, nor what a parser has consumed at any
time (`Parse.Run.whole`, `Parse.Reads.stop_notFeed`).
-/

namespace FactorySync

variable {text : List Char} {p q : Nat}

/-- Every line feed follows a carriage return. -/
def Returned (cs : List Char) : Prop :=
  ∀ front rest, cs = front ++ '\n' :: rest → front.getLast? = some '\r'

instance (cs : List Char) : Decidable (Returned cs) :=
  decidable_of_iff (∀ n < cs.length, cs[n]? = some '\n' → (cs.take n).getLast? = some '\r') <| by
    constructor
    · rintro h front rest rfl
      simpa using h front.length (by simp) (by simp)
    · intro h n lt feed
      refine h (cs.take n) (cs.drop (n + 1)) ?_
      obtain ⟨_, feed⟩ := List.getElem?_eq_some_iff.1 feed
      rw [← feed, List.getElem_cons_drop, List.take_append_drop]

/-- What stands at an offset does not begin with a line feed. -/
def NotFeed (text : List Char) (p : Nat) : Prop := (dropBytes p text).head? ≠ some '\n'

namespace Returned

variable {cs ds : List Char}

theorem of_not_mem (h : '\n' ∉ cs) : Returned cs := by
  rintro front rest rfl
  simp at h

theorem nil : Returned [] := of_not_mem List.not_mem_nil

theorem append (hc : Returned cs) (hd : Returned ds) : Returned (cs ++ ds) := by
  intro front rest heq
  rcases List.append_eq_append_iff.1 heq with ⟨middle, rfl, tail⟩ | ⟨middle, rfl, tail⟩
  · have last := hd middle rest tail
    rw [List.getLast?_append, last]
    rfl
  · cases middle with
    | nil => exact absurd (hd [] rest (by simpa using tail.symm)) nofun
    | cons c middle =>
      obtain ⟨rfl, -⟩ := List.cons.inj tail
      exact hc front middle rfl

theorem flatten {pieces : List (List Char)} (h : ∀ piece ∈ pieces, Returned piece) :
    Returned pieces.flatten := by
  induction pieces with
  | nil => exact nil
  | cons piece pieces ih =>
    obtain ⟨first, rest⟩ := List.forall_mem_cons.1 h
    exact first.append (ih rest)

theorem flatMap {α : Type} {f : α → List Char} {as : List α} (h : ∀ a ∈ as, Returned (f a)) :
    Returned (as.flatMap f) := by
  rw [List.flatMap_def]
  exact flatten (List.forall_mem_map.2 h)

theorem left (h : Returned (cs ++ ds)) : Returned cs := fun front rest heq =>
  h front (rest ++ ds) (by rw [heq, List.append_assoc, List.cons_append])

/-- A text that begins with a line feed is cut in the middle of a line break. -/
theorem right (h : Returned (cs ++ ds)) (begins : ds.head? ≠ some '\n') : Returned ds := by
  rintro front rest rfl
  have last := h (cs ++ front) rest (by rw [List.append_assoc])
  cases front with
  | nil => exact absurd rfl begins
  | cons c front => rwa [List.getLast?_append_of_ne_nil _ (List.cons_ne_nil c front)] at last

/-- A line feed is only found behind a carriage return. -/
theorem head?_ne (h : Returned (cs ++ ds)) (last : cs.getLast? ≠ some '\r') :
    ds.head? ≠ some '\n' := by
  intro feed
  obtain ⟨rest, rfl⟩ := List.head?_eq_some_iff.1 feed
  exact last (h cs rest rfl)

theorem takeBytes (h : Returned text) : Returned (takeBytes p text) :=
  left (by rwa [takeBytes_append_dropBytes p text])

theorem dropBytes (h : Returned text) (begins : NotFeed text p) : Returned (dropBytes p text) := by
  rw [← takeBytes_append_dropBytes p text] at h
  exact h.right begins

theorem sliceBytes (h : Returned text) (begins : NotFeed text p) : Returned (sliceBytes p q text) :=
  (h.dropBytes begins).takeBytes

/-- Behind what does not end with a carriage return there is no line feed. -/
theorem notFeed (h : Returned text) (place : StandsAt text p (cs ++ ds))
    (last : cs.getLast?.any (· != '\r') = true) : NotFeed text (p + byteLength cs) := by
  obtain ⟨front, rfl, rfl⟩ := place
  obtain ⟨c, hc, other⟩ := (Option.any_eq_true _ _).1 last
  have behind : StandsAt (front ++ (cs ++ ds)) (byteLength front + byteLength cs) ds :=
    StandsAt.after ⟨front, rfl, rfl⟩
  rw [← List.append_assoc] at h
  rw [NotFeed, behind.dropBytes]
  refine h.head?_ne ?_
  rw [List.getLast?_append, hc]
  simpa using other

theorem notFeed_zero (h : Returned text) : NotFeed text 0 := by
  rw [NotFeed, dropBytes_zero]
  have cut : Returned ([] ++ text) := h
  exact cut.head?_ne (by simp)

theorem woven {piece : Edit → List Char} {lo hi : Nat} {es : List Edit} (h : Returned text)
    (begins : NotFeed text lo)
    (pieces : ∀ e ∈ es, Returned (piece e) ∧ NotFeed text e.span.stop) :
    Returned (Edit.woven text piece lo hi es) := by
  induction es generalizing lo with
  | nil => exact h.sliceBytes begins
  | cons e es ih =>
    obtain ⟨⟨first, behind⟩, rest⟩ := List.forall_mem_cons.1 pieces
    exact (h.sliceBytes begins).append (first.append (ih behind rest))

/-- The line break that such a text uses, if there is one. -/
theorem newLineOf (h : Returned text) (feed : '\n' ∈ text) : newLineOf text = .crlf := by
  fun_induction FactorySync.newLineOf text with
  | case1 => cases feed
  | case2 => rfl
  | case3 cs => exact absurd (h [] cs rfl) nofun
  | case4 c cs two one ih =>
    have more : '\n' ∈ cs := (List.mem_cons.1 feed).resolve_left fun same => one same.symm
    have cut : Returned ([c] ++ cs) := h
    refine ih (cut.right fun begins => ?_) more
    obtain ⟨rest, rfl⟩ := List.head?_eq_some_iff.1 begins
    have last := h [c] rest rfl
    exact two rest (by simpa using last) rfl

end Returned

/-- A batch of edits keeps the line breaks if no span ends in the middle of one. -/
theorem Edit.applyAll_returned {es : List Edit} {out : List Char} (h : Returned text)
    (cuts : ∀ e ∈ es, e.span.Cuts text)
    (pieces : ∀ e ∈ es, Returned e.text ∧ NotFeed text e.span.stop)
    (applied : applyAll text es = .ok out) : Returned out := by
  have mem {e : Edit} : e ∈ sorted es ↔ e ∈ es := mem_sorted
  have cuts' : ∀ e ∈ sorted es, e.span.Cuts text := fun e he => cuts e (mem.1 he)
  rw [applyAll, ← sorted] at applied
  obtain ⟨behind, apart⟩ := (applySorted_isOk_iff (.zero text) cuts').1 ⟨out, applied⟩
  rw [applySorted_woven (.zero text) cuts' behind apart] at applied
  exact Except.ok.inj applied ▸ h.woven h.notFeed_zero fun e he => pieces e (mem.1 he)

/-! ## Where tokens and nodes end -/

/-- No token ends inside a line break. -/
theorem Lexeme.TakenFrom.notFeed {l : Lexeme} {cs : List Char} (taken : l.TakenFrom cs)
    (returned : Returned text) (place : StandsAt text p cs)
    (fresh : (Trivia.read .between cs).size = 0) (pos : 0 < l.size) :
    NotFeed text (p + byteLength (cs.take l.size)) := by
  cases cs with
  | nil => exact absurd taken.size_le (Nat.not_le.2 pos)
  | cons c cs =>
    have noReturn : c ≠ '\r' := by
      rintro rfl
      simp [Trivia.read, CharClass.isLineBreak, Trivia.afterChar] at fresh
    have whole := taken.not_parts noReturn
    have place' : StandsAt text p ((c :: cs).take l.size ++ (c :: cs).drop l.size) := by
      rwa [List.take_append_drop]
    have nonempty : (c :: cs).take l.size ≠ [] := by simp; omega
    obtain ⟨d, hd⟩ : ∃ d, ((c :: cs).take l.size).getLast? = some d :=
      ⟨_, List.getLast?_eq_some_getLast nonempty⟩
    by_cases last : d = '\r'
    · rw [NotFeed, place'.after.dropBytes]
      exact fun feed => whole ⟨hd.trans (congrArg some last), feed⟩
    · exact returned.notFeed place' (by rw [hd]; simpa using last)

namespace Scanner

variable {s : Scanner} {start : Nat} {flags : TokenFlags} {l : Lexeme} {cs : List Char}

theorem take_stop : (s.take start flags l cs).token.stop = start + byteLength (cs.take l.size) := by
  simp [Token.stop]

theorem next_notFeed (returned : Returned text) (place : StandsAt text s.token.stop s.rest) :
    NotFeed text s.next.token.stop := by
  rw [← s.gap_append_ahead] at place
  have place := place.after
  have fresh : (Trivia.read .between s.ahead).size = 0 := Trivia.ofChars_size_drop _ _
  cases hahead : s.ahead with
  | nil =>
    obtain ⟨before, flags, -, hnext⟩ := next_of_ahead_nil hahead
    rw [hahead] at place
    rw [hnext, take_stop, NotFeed, List.take_nil, byteLength_nil, Nat.add_zero, place.dropBytes]
    exact nofun
  | cons c cs =>
    obtain ⟨before, flags, -, hnext⟩ := next_of_ahead_cons hahead
    rw [hahead] at place fresh
    rw [hnext, take_stop]
    exact (Lexeme.TakenFrom.next c cs).notFeed returned place fresh
      (Lexeme.ofChars_fits c cs).size_pos

theorem Sound.retake_notFeed (h : s.Sound text) (returned : Returned text)
    (taken : l.TakenFrom s.fromToken) (pos : 0 < l.size) : NotFeed text (s.retake l).token.stop := by
  rw [Scanner.retake, take_stop]
  exact taken.notFeed returned h.place h.fresh pos

theorem Sound.rescan_notFeed (h : s.Sound text) (returned : Returned text)
    (stop : NotFeed text s.token.stop) (way : Rescan) :
    NotFeed text (s.rescan way).token.stop := by
  have begins (more : s.token.kind ≠ .endOfFile) : ∃ c cs, s.fromToken = c :: cs := by
    obtain ⟨c, cs, hsource⟩ := List.exists_cons_of_ne_nil (h.nonempty more)
    exact ⟨c, cs ++ s.rest, by rw [fromToken, hsource, List.cons_append]⟩
  cases way with
  | greaterThan =>
    simp only [Scanner.rescan, rescanGreaterThan]
    split
    · next hk =>
      have htext : s.fromToken = '>' :: s.rest := by
        rw [fromToken, h.spelled ">" (by rw [hk]; rfl)]
        rfl
      exact h.retake_notFeed returned (htext ▸ .greaterThan s.rest) (Nat.succ_pos _)
    · exact stop
  | slash =>
    simp only [Scanner.rescan, rescanSlash]
    split
    · next hk =>
      obtain ⟨c, cs, htext⟩ := begins (by rcases hk with hk | hk <;> simp [hk])
      refine h.retake_notFeed returned ?_ (Nat.succ_pos _)
      rw [htext]
      exact .slash c cs
    · exact stop
  | template =>
    simp only [Scanner.rescan, rescanTemplate]
    split
    · next hk =>
      obtain ⟨c, cs, htext⟩ := begins (by simp [hk])
      refine h.retake_notFeed returned ?_ (Nat.succ_pos _)
      rw [htext]
      exact .template c cs
    · exact stop

end Scanner

namespace Parse

variable {r s : Reading} {n m : Node}

/-- Neither what is consumed nor the current token ends inside a line break. -/
structure Reading.Whole (text : List Char) (r : Reading) : Prop where
  sound : r.Sound text
  lastEnd : NotFeed text r.lastEnd
  stop : NotFeed text r.token.stop

theorem Reading.Whole.here (h : r.Whole text) : NotFeed text r.here := by
  have fresh := h.sound.scanner.fresh
  rw [NotFeed, Reading.here, Reading.token, h.sound.scanner.place.dropBytes]
  intro feed
  obtain ⟨rest, heq⟩ := List.head?_eq_some_iff.1 feed
  rw [heq] at fresh
  simp [Trivia.read, CharClass.isLineBreak, Trivia.afterChar] at fresh

theorem Step.whole (h : Step r s) (returned : Returned text) (whole : r.Whole text) :
    s.Whole text := by
  have sound := h.sound whole.sound
  cases h with
  | advance =>
    exact ⟨sound, whole.stop, Scanner.next_notFeed returned whole.sound.scanner.rest⟩
  | rescan way =>
    exact ⟨sound, whole.lastEnd, whole.sound.scanner.rescan_notFeed returned whole.stop way⟩
  | note p => exact ⟨sound, by simpa using whole.lastEnd, by simpa using whole.stop⟩
  | passOver p =>
    have place : StandsAt text (r.note p).token.stop (r.note p).scanner.rest := by
      simpa [Reading.token] using whole.sound.scanner.rest
    exact ⟨sound, by simpa using whole.stop, Scanner.next_notFeed returned place⟩

/-- Wherever a parser gets to, no line break is cut in two. -/
theorem Run.whole (h : Run r s) (returned : Returned text) (whole : r.Whole text) :
    s.Whole text := by
  induction h with
  | refl => exact whole
  | step _ last ih => exact last.whole returned ih

theorem Parser.firstReading_whole (path : String) (returned : Returned text) :
    (Parser.firstReading path text).Whole text := by
  exact ⟨Parser.firstReading_sound path text, returned.notFeed_zero,
    Scanner.next_notFeed returned (.zero text)⟩

theorem Reads.stop_notFeed (h : Reads r n s) (returned : Returned text) (whole : r.Whole text) :
    NotFeed text n.span.stop := by
  have last := h.run.whole returned whole
  cases h with
  | plain _ _ span => rw [span]; exact last.lastEnd
  | hole _ _ span => rw [span]; exact whole.here
  | literal _ _ _ span => rw [span]; exact last.lastEnd

/-- The members of an object literal end in front of a comma or behind one. -/
theorem ReadsMembers.fullStop_notFeed {ns : List Node} {ends : List (Option Nat)}
    (h : ReadsMembers r ns ends s) (returned : Returned text) (whole : r.Whole text)
    (index start : Nat) : ∀ m ∈ Member.ofElements index start ns ends, NotFeed text m.fullStop := by
  induction ns generalizing r ends index start with
  | nil => exact nofun
  | cons n ns ih =>
    cases h with
    | last _ member =>
      exact List.forall_mem_singleton.2 (member.stop_notFeed returned whole)
    | cons _ member _ rest =>
      have behind := (member.run.trans (Step.advance _).run).whole returned whole
      exact List.forall_mem_cons.2 ⟨behind.lastEnd, ih rest behind (index + 1) _⟩

end Parse

end FactorySync
