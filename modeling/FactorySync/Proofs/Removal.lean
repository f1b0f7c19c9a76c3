import FactorySync.Literal.Clear
import FactorySync.Proofs.Edits
import FactorySync.Proofs.Tiling

/-!
# Removal spans

A member is taken out either with the lines it stands on (`Member.onOwnLines`) or from the comma
before it to the comma after it. Both kinds of span are cut cleanly (`Member.Placed.removal_cuts`).
Of two members in order the spans are apart, with one exception: a member that is taken out with its
lines reaches over the line break behind it, and into the next member if that one is not taken out
with its lines (`Member.Tile.pairwise_iff`).
-/

namespace FactorySync

namespace Member

variable {text : List Char} {m a b : Member}

/-- What stands between the comma before a member and the member. -/
def leading (text : List Char) (m : Member) : List Char :=
  sliceBytes m.fullStart m.element.span.start text

/-- What follows a member and its comma. -/
def trailing (text : List Char) (m : Member) : List Char := dropBytes m.fullStop text

/-- Whether a member is taken out with the lines it stands on: a line begins before it, and nothing
but blanks stands behind it on its line. -/
def onOwnLines (text : List Char) (m : Member) : Bool :=
  (m.leading text).contains '\n' &&
    newLineLength ((m.trailing text).drop ((m.trailing text).takeWhile isTabOrSpace).length) != 0

/-- What can stand between a member on its own lines and the line feed behind it. -/
def EndsLine (line : List Char) : Prop := ∀ c ∈ line, c = ' ' ∨ c = '\t' ∨ c = '\r'

theorem EndsLine.byteLength_eq {line : List Char} (h : EndsLine line) :
    byteLength line = line.length := by
  refine byteLength_eq_length fun c hc => ?_
  rcases h c hc with rfl | rfl | rfl <;> rfl

theorem EndsLine.not_mem {line : List Char} (h : EndsLine line) : '\n' ∉ line := by
  intro hmem
  rcases h _ hmem with h | h | h <;> exact absurd h (by decide)

/-- What is up to the first line feed. -/
theorem takeWhile_eq_of_not_mem {line : List Char} (h : '\n' ∉ line) (rest : List Char) :
    (line ++ '\n' :: rest).takeWhile (· ≠ '\n') = line := by
  have hne : ∀ c ∈ line, decide (c ≠ '\n') = true := by
    rintro c hc
    exact decide_eq_true fun heq => h (heq ▸ hc)
  rw [List.takeWhile_append_of_pos hne]
  simp

theorem removalSpan_of_not_onOwnLines (h : m.onOwnLines text = false) :
    m.removalSpan text = ⟨m.fullStart, m.fullStop⟩ := by
  rw [onOwnLines, leading, trailing] at h
  rw [removalSpan]
  exact if_neg (by rw [h]; exact Bool.false_ne_true)

theorem removalSpan_of_onOwnLines (h : m.onOwnLines text = true) :
    ∃ line rest, EndsLine line ∧ m.trailing text = line ++ '\n' :: rest ∧
      '\n' ∈ m.leading text ∧ m.removalSpan text =
        ⟨m.fullStart + byteLength ((m.leading text).takeWhile (· ≠ '\n')) + 1,
          m.fullStop + line.length + 1⟩ := by
  have hspan := h
  simp only [onOwnLines, Bool.and_eq_true, List.contains_iff_mem, bne_iff_ne] at h
  obtain ⟨hleading, hbreak⟩ := h
  obtain ⟨line, rest, hrest, hlength, hreturn⟩ := newLineLength_eq_iff hbreak
  have hsplit := takeWhile_append_drop isTabOrSpace (m.trailing text)
  refine ⟨(m.trailing text).takeWhile isTabOrSpace ++ line, rest, fun c hc => ?_, ?_, hleading, ?_⟩
  · rcases List.mem_append.1 hc with hc | hc
    · have := List.all_eq_true.1 List.all_takeWhile c hc
      simp only [isTabOrSpace, Bool.or_eq_true, beq_iff_eq] at this
      exact this.imp_right .inl
    · exact .inr (.inr (hreturn c hc))
  · rw [List.append_assoc, ← hrest, hsplit]
  · rw [onOwnLines, leading, trailing] at hspan
    rw [removalSpan]
    rw [trailing] at hlength
    refine (if_pos hspan).trans ?_
    simp only [leading, trailing, hlength, List.length_append, Span.mk.injEq, true_and]
    omega

namespace Placed

/-- Between a member and the comma before it, and from there on. -/
theorem leading_place (h : m.Placed text) : ∃ rest,
    StandsAt text m.fullStart (m.leading text ++ rest) ∧
      m.element.span.start = m.fullStart + byteLength (m.leading text) := by
  have place := StandsAt.of_boundary h.fullStart_boundary
  have place' := StandsAt.of_boundary h.cuts.start_boundary
  obtain ⟨heq, hstart⟩ := place.slice_between place' h.fullStart_le
  exact ⟨_, heq ▸ place, hstart⟩

theorem trailing_place (h : m.Placed text) : StandsAt text m.fullStop (m.trailing text) :=
  .of_boundary h.fullStop_boundary

/-- The leading part up to its first line feed. -/
theorem leading_split (hleading : '\n' ∈ m.leading text) : ∃ more,
    m.leading text = (m.leading text).takeWhile (· ≠ '\n') ++ '\n' :: more := by
  obtain ⟨line, more, heq, hline⟩ := List.eq_append_cons_of_mem hleading
  exact ⟨more, by rw [heq, takeWhile_eq_of_not_mem hline]⟩

theorem removal_bounds (h : m.Placed text) :
    m.fullStart ≤ (m.removalSpan text).start ∧
      (m.removalSpan text).start ≤ m.element.span.start ∧
        m.fullStop ≤ (m.removalSpan text).stop := by
  cases hown : m.onOwnLines text with
  | false =>
    rw [removalSpan_of_not_onOwnLines hown]
    exact ⟨Nat.le_refl _, h.fullStart_le, Nat.le_refl _⟩
  | true =>
    obtain ⟨line, rest, -, -, hleading, hspan⟩ := removalSpan_of_onOwnLines hown
    obtain ⟨more, hmore⟩ := leading_split hleading
    obtain ⟨_, -, hstart⟩ := h.leading_place
    have hlength := congrArg byteLength hmore
    rw [byteLength_append, byteLength_cons, show '\n'.utf8Size = 1 from rfl] at hlength
    rw [hspan]
    dsimp only
    omega

/-- A member is cut out cleanly. -/
theorem removal_cuts (h : m.Placed text) : (m.removalSpan text).Cuts text := by
  obtain ⟨-, hstart, hstop⟩ := h.removal_bounds
  have le : (m.removalSpan text).start ≤ (m.removalSpan text).stop :=
    Nat.le_trans hstart (Nat.le_trans h.cuts.start_le_stop (Nat.le_trans h.stop_le hstop))
  cases hown : m.onOwnLines text with
  | false =>
    rw [removalSpan_of_not_onOwnLines hown] at le ⊢
    exact ⟨le, h.fullStart_boundary, h.fullStop_boundary⟩
  | true =>
    obtain ⟨line, rest, hline, htrailing, hleading, hspan⟩ := removalSpan_of_onOwnLines hown
    obtain ⟨more, hmore⟩ := leading_split hleading
    obtain ⟨behind, place, -⟩ := h.leading_place
    have hbreak : byteLength ['\n'] = 1 := rfl
    rw [hmore, List.append_assoc, ← List.singleton_append, List.append_assoc] at place
    have first := place.after.after
    have second := h.trailing_place
    rw [htrailing, ← List.singleton_append] at second
    have last := second.after.after
    rw [hbreak] at first last
    rw [hspan] at le ⊢
    rw [← hline.byteLength_eq] at le ⊢
    exact ⟨le, first.isBoundary, last.isBoundary⟩

/-- What is cut out with a member ends before the next member begins. -/
theorem removal_stop_le (ha : a.Placed text) (hb : b.Placed text)
    (follows : b.fullStart = a.fullStop) :
    (a.removalSpan text).stop ≤ b.element.span.start := by
  have le : a.fullStop ≤ b.element.span.start := follows ▸ hb.fullStart_le
  cases hown : a.onOwnLines text with
  | false =>
    rw [removalSpan_of_not_onOwnLines hown]
    exact le
  | true =>
    obtain ⟨line, rest, hline, htrailing, -, hspan⟩ := removalSpan_of_onOwnLines hown
    have place := ha.trailing_place
    rw [htrailing, ← List.singleton_append, ← List.append_assoc] at place
    have blank : ∀ c ∈ line ++ ['\n'],
        (CharClass.isLineBreak c || CharClass.isBlank c) = true := by
      intro c hc
      rcases List.mem_append.1 hc with hc | hc
      · rcases hline c hc with rfl | rfl | rfl <;> rfl
      · rw [List.mem_singleton.1 hc]
        rfl
    have := hb.tokenStart.after_blanks place blank le
    rw [byteLength_append, hline.byteLength_eq, show byteLength ['\n'] = 1 from rfl] at this
    rw [hspan]
    dsimp only
    omega

/-- Of two members next to each other, the removal spans are apart unless the first one alone goes
with its lines. -/
theorem apart_iff (ha : a.Placed text) (hb : b.Placed text) (follows : b.fullStart = a.fullStop) :
    (a.removalSpan text).stop ≤ (b.removalSpan text).start ↔
      (a.onOwnLines text = true → b.onOwnLines text = true) := by
  cases hown : a.onOwnLines text with
  | false =>
    rw [removalSpan_of_not_onOwnLines hown]
    exact ⟨fun _ => nofun, fun _ => follows ▸ hb.removal_bounds.1⟩
  | true =>
    obtain ⟨line, rest, hline, htrailing, -, hspan⟩ := removalSpan_of_onOwnLines hown
    cases hown' : b.onOwnLines text with
    | false =>
      rw [hspan, removalSpan_of_not_onOwnLines hown', follows]
      dsimp only
      refine ⟨fun h => ?_, fun h => absurd (h rfl) Bool.false_ne_true⟩
      omega
    | true =>
      refine ⟨fun _ _ => rfl, fun _ => ?_⟩
      -- the first line feed in front of `b` is the one that ends the last line of `a`
      obtain ⟨_, _, _, _, hleading, hspan'⟩ := removalSpan_of_onOwnLines hown'
      obtain ⟨behind, place, hstart⟩ := hb.leading_place
      have place' := ha.trailing_place
      rw [follows] at place
      have heq := (place.unique place').trans htrailing
      have hfirst : (b.leading text).takeWhile (· ≠ '\n') = line := by
        obtain ⟨first, more, hfirst, hnone⟩ := List.eq_append_cons_of_mem hleading
        have h := congrArg (List.takeWhile (· ≠ '\n')) heq
        rw [takeWhile_eq_of_not_mem hline.not_mem, hfirst, List.append_assoc, List.cons_append,
          takeWhile_eq_of_not_mem hnone] at h
        rw [hfirst, takeWhile_eq_of_not_mem hnone, h]
      exact Nat.le_of_eq (by rw [hspan, hspan', hfirst, hline.byteLength_eq, follows])

end Placed

end Member
end FactorySync
