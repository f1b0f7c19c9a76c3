import FactorySync.Proofs.Place
import FactorySync.Text.Edit

/-!
# When a batch of edits can be applied

A batch whose spans are cut cleanly (`Span.Cuts`) fails for one reason only: two of its edits
overlap. `Edit.applyAll_isOk_iff` says so for a batch that is in order, and `Edit.applyAll_isOk` is
the direction that holds in any order. What no edit touches is copied (`Edit.applyAll_copies`).
-/

namespace FactorySync

/-! ## Steps that fail -/

section Steps

variable {ε α β : Type} {x : Except ε α} {f : α → Except ε β} {e : ε}

theorem bind_eq_error : (x >>= f) = .error e ↔ x = .error e ∨ ∃ a, x = .ok a ∧ f a = .error e := by
  cases x <;> simp [bind, Except.bind]

theorem bind_eq_ok {b : β} : (x >>= f) = .ok b ↔ ∃ a, x = .ok a ∧ f a = .ok b := by
  cases x <;> simp [bind, Except.bind]

theorem toOption_eq_some {a : α} : x.toOption = some a ↔ x = .ok a := by
  cases x <;> simp [Except.toOption]

end Steps

namespace Edit

/-- Neither edit of a batch reaches into the other if the first ends where the second begins or
before. -/
def Apart (a b : Edit) : Prop := a.span.stop ≤ b.span.start

variable {text : List Char}

/-- An edit at or after the cursor is carried out and reading goes on behind it. -/
theorem applySorted_cons {cursor : Nat} {rest : List Char} {e : Edit} {es : List Edit}
    (place : StandsAt text cursor rest) (cuts : e.span.Cuts text) (after : cursor ≤ e.span.start) :
    applySorted cursor rest (e :: es) = do
      let tail ← applySorted e.span.stop (dropBytes (e.span.stop - cursor) rest) es
      return takeBytes (e.span.start - cursor) rest ++ (e.text ++ tail) := by
  have hstop : max e.span.stop cursor = e.span.stop :=
    Nat.max_eq_left (Nat.le_trans after cuts.start_le_stop)
  have hstart := place.isBoundary_sub after cuts.start_boundary
  have hend := place.isBoundary_sub (Nat.le_trans after cuts.start_le_stop) cuts.stop_boundary
  simp only [applySorted, Nat.not_lt.2 after, if_false, hstop, hstart, hend, Bool.and_self, if_true]

theorem applySorted_isOk_iff {cursor : Nat} {rest : List Char} {es : List Edit}
    (place : StandsAt text cursor rest) (cuts : ∀ e ∈ es, e.span.Cuts text) :
    (∃ out, applySorted cursor rest es = .ok out) ↔
      (∀ e ∈ es, cursor ≤ e.span.start) ∧ es.Pairwise Apart := by
  induction es generalizing cursor rest with
  | nil => exact ⟨fun _ => ⟨nofun, .nil⟩, fun _ => ⟨rest, rfl⟩⟩
  | cons e es ih =>
    have he := cuts e List.mem_cons_self
    by_cases after : cursor ≤ e.span.start
    · rw [applySorted_cons place he after]
      have place' := place.drop_sub (Nat.le_trans after he.start_le_stop) he.stop_boundary
      have tail := ih place' fun e' h => cuts e' (List.mem_cons_of_mem e h)
      rw [List.pairwise_cons]
      constructor
      · rintro ⟨out, hout⟩
        cases htail : applySorted e.span.stop (dropBytes (e.span.stop - cursor) rest) es with
        | error fault => rw [htail] at hout; cases hout
        | ok t =>
          obtain ⟨behind, apart⟩ := tail.1 ⟨t, htail⟩
          refine ⟨fun e' h => ?_, behind, apart⟩
          rcases List.mem_cons.1 h with rfl | h
          · exact after
          · exact Nat.le_trans after (Nat.le_trans he.start_le_stop (behind e' h))
      · rintro ⟨-, behind, apart⟩
        obtain ⟨t, ht⟩ := tail.2 ⟨behind, apart⟩
        exact ⟨_, by rw [ht]; rfl⟩
    · refine ⟨fun ⟨out, hout⟩ => ?_, fun h => absurd (h.1 e List.mem_cons_self) after⟩
      rw [applySorted, if_pos (Nat.lt_of_not_le after)] at hout
      cases hout

/-- Edits in order can be carried out exactly if no two of them overlap. -/
theorem applyAll_isOk_iff {es : List Edit} (cuts : ∀ e ∈ es, e.span.Cuts text)
    (sorted : es.Pairwise fun a b => a.span.before b.span = true) :
    (∃ out, applyAll text es = .ok out) ↔ es.Pairwise Apart := by
  rw [applyAll, List.mergeSort_of_pairwise sorted, applySorted_isOk_iff (.zero text) cuts]
  simp

/-! ## Batches in any order -/

/-- Whichever of two edits comes first, it ends where the other one begins or before. -/
def Compatible (a b : Edit) : Prop :=
  (a.span.before b.span = true → Apart a b) ∧ (b.span.before a.span = true → Apart b a)

theorem Compatible.symm {a b : Edit} (h : Compatible a b) : Compatible b a := ⟨h.2, h.1⟩

theorem Apart.compatible {a b : Edit} (h : Apart a b) (ha : a.span.Cuts text)
    (hb : b.span.Cuts text) : Compatible a b := by
  refine ⟨fun _ => h, fun before => ?_⟩
  have := ha.start_le_stop
  have := hb.start_le_stop
  simp only [Span.before, Bool.or_eq_true, decide_eq_true_eq, Bool.and_eq_true, beq_iff_eq]
    at before
  unfold Apart at h ⊢
  omega

theorem before_trans (a b c : Edit) (h : a.span.before b.span = true)
    (h' : b.span.before c.span = true) : a.span.before c.span = true := by
  simp only [Span.before, Bool.or_eq_true, decide_eq_true_eq, Bool.and_eq_true, beq_iff_eq]
    at h h' ⊢
  omega

theorem before_total (a b : Edit) : (a.span.before b.span || b.span.before a.span) = true := by
  simp only [Span.before, Bool.or_eq_true, decide_eq_true_eq, Bool.and_eq_true, beq_iff_eq]
  omega

/-- Once they are sorted, edits of which no two overlap follow one another. -/
theorem mergeSort_apart {es : List Edit} (compatible : es.Pairwise Compatible) :
    (es.mergeSort fun a b => a.span.before b.span).Pairwise Apart := by
  have perm := List.mergeSort_perm es fun a b => a.span.before b.span
  have sorted : (es.mergeSort fun a b => a.span.before b.span).Pairwise fun a b =>
      a.span.before b.span = true := List.pairwise_mergeSort before_trans before_total es
  have pairs := (perm.pairwise_iff Compatible.symm).2 compatible
  exact sorted.imp₂ (fun _ _ before pair => pair.1 before) pairs

/-- Edits of which no two overlap can be carried out, in whatever order they are given. -/
theorem applyAll_isOk {es : List Edit} (cuts : ∀ e ∈ es, e.span.Cuts text)
    (compatible : es.Pairwise Compatible) : ∃ out, applyAll text es = .ok out := by
  rw [applyAll, applySorted_isOk_iff (.zero text) fun e he => cuts e (List.mem_mergeSort.1 he)]
  exact ⟨fun e _ => Nat.zero_le _, mergeSort_apart compatible⟩

/-! ## What no edit touches -/

/-- Where the offset `pos` goes when edits in order are carried out from the offset `cursor` on. -/
def target (cursor : Nat) : List Edit → Nat → Nat
  | [], pos => pos - cursor
  | e :: es, pos =>
    if e.span.stop ≤ pos then
      (e.span.start - cursor) + (byteLength e.text + target e.span.stop es pos)
    else pos - cursor

/-- A piece of text is spared by an edit that is over before it or begins behind it. -/
def Spares (lo hi : Nat) (e : Edit) : Prop := e.span.stop ≤ lo ∨ hi ≤ e.span.start

theorem applySorted_copies {cursor lo : Nat} {rest piece after out : List Char} {es : List Edit}
    (place : StandsAt text cursor rest) (cuts : ∀ e ∈ es, e.span.Cuts text)
    (h : applySorted cursor rest es = .ok out) (stands : StandsAt text lo (piece ++ after))
    (le : cursor ≤ lo) (spared : ∀ e ∈ es, e.Spares lo (lo + byteLength piece)) :
    ∃ more, StandsAt out (target cursor es lo) (piece ++ more) := by
  induction es generalizing cursor rest out with
  | nil =>
    cases h
    obtain ⟨front, hrest, rfl⟩ := place.between stands le
    exact ⟨after, front, hrest, by simp [target]⟩
  | cons e es ih =>
    have he := cuts e List.mem_cons_self
    obtain ⟨behind, -⟩ := (applySorted_isOk_iff place cuts).1 ⟨out, h⟩
    have begins := behind e List.mem_cons_self
    rw [applySorted_cons place he begins, bind_eq_ok] at h
    obtain ⟨tail, htail, heq⟩ := h
    cases heq
    obtain ⟨kept, hkept, hstart⟩ := place.between (.of_boundary he.start_boundary) begins
    have htake : takeBytes (e.span.start - cursor) rest = kept := by
      rw [hkept, hstart, Nat.add_sub_cancel_left, takeBytes_append]
    rw [htake, target, hstart]
    split
    · next passed =>
      have rest_place := place.drop_sub (Nat.le_trans begins he.start_le_stop) he.stop_boundary
      obtain ⟨more, front, htail, hlength⟩ := ih rest_place
        (fun e' h => cuts e' (.tail e h)) htail passed (fun e' h => spared e' (.tail e h))
      refine ⟨more, kept ++ (e.text ++ front), by simp [htail], ?_⟩
      simp only [byteLength_append, hlength, Nat.add_sub_cancel_left]
    · next going =>
      have ends := (spared e List.mem_cons_self).resolve_left going
      obtain ⟨front, hrest, hlo⟩ := place.between stands le
      obtain ⟨mid, hafter, -⟩ := stands.after.between (.of_boundary he.start_boundary) ends
      have split : kept = front ++ (piece ++ mid) := by
        refine List.append_cancel_right (hkept.symm.trans ?_)
        rw [hrest, hafter, List.append_assoc, List.append_assoc]
      refine ⟨mid ++ (e.text ++ tail), front, by simp [split], ?_⟩
      rw [hlo, Nat.add_sub_cancel_left]

/-- What no edit of a batch touches is copied. -/
theorem applyAll_copies {lo : Nat} {piece after out : List Char} {es : List Edit}
    (cuts : ∀ e ∈ es, e.span.Cuts text) (h : applyAll text es = .ok out)
    (stands : StandsAt text lo (piece ++ after))
    (spared : ∀ e ∈ es, e.Spares lo (lo + byteLength piece)) :
    ∃ more, StandsAt out (target 0 (es.mergeSort fun a b => a.span.before b.span) lo)
      (piece ++ more) :=
  applySorted_copies (.zero text) (fun e he => cuts e (List.mem_mergeSort.1 he)) h stands
    (Nat.zero_le lo) fun e he => spared e (List.mem_mergeSort.1 he)

end Edit
end FactorySync
