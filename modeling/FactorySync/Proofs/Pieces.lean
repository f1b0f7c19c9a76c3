import FactorySync.Proofs.Splices

/-!
# Texts in pieces

A text that is cut into pieces, some of which are to give way to another text, tells by itself which
edits do so. One pass carries them out piece by piece (`Piece.applyAll_edits`). An edit may be moved
inside a batch as long as it does not pass another one of its span (`Edit.applyAll_moved`), so
something can be put in between two pieces as well (`Piece.applyAll_insert`).
-/

namespace FactorySync

/-- A piece of a text, and what it gives way to, if to anything. -/
structure Piece where
  old : List Char
  new : Option (List Char) := none
  deriving Repr, DecidableEq

namespace Piece

/-- What stands in the place of the piece in the end. -/
def result (p : Piece) : List Char := p.new.getD p.old

/-- The text that is cut into the pieces. -/
def before (ps : List Piece) : List Char := ps.flatMap (·.old)

/-- The text in the end. -/
def after (ps : List Piece) : List Char := ps.flatMap (·.result)

/-- The edits that the pieces ask for, the first of which begins at the offset. -/
def edits (pos : Nat) : List Piece → List Edit
  | [] => []
  | p :: ps =>
    p.new.toList.map (.replace (.ofLength pos (byteLength p.old))) ++
      edits (pos + byteLength p.old) ps

variable {p : Piece} {ps qs : List Piece} {pos : Nat} {e : Edit}

@[simp] theorem before_nil : before [] = [] := rfl

@[simp] theorem before_cons (p : Piece) (ps : List Piece) : before (p :: ps) = p.old ++ before ps :=
  rfl

@[simp] theorem after_nil : after [] = [] := rfl

@[simp] theorem after_cons (p : Piece) (ps : List Piece) : after (p :: ps) = p.result ++ after ps :=
  rfl

theorem edits_cons (pos : Nat) (p : Piece) (ps : List Piece) : edits pos (p :: ps) =
    p.new.toList.map (.replace (.ofLength pos (byteLength p.old))) ++
      edits (pos + byteLength p.old) ps := rfl

theorem before_append (ps qs : List Piece) : before (ps ++ qs) = before ps ++ before qs :=
  List.flatMap_append

theorem after_append (ps qs : List Piece) : after (ps ++ qs) = after ps ++ after qs :=
  List.flatMap_append

theorem edits_append (pos : Nat) (ps qs : List Piece) :
    edits pos (ps ++ qs) = edits pos ps ++ edits (pos + byteLength (before ps)) qs := by
  induction ps generalizing pos with
  | nil => rfl
  | cons p ps ih =>
    rw [List.cons_append, edits, ih, edits, before_cons, byteLength_append, List.append_assoc,
      Nat.add_assoc]

/-- The edits lie inside the pieces, and where no piece is empty none of them is an insertion. -/
theorem mem_edits (h : e ∈ edits pos ps) :
    pos ≤ e.span.start ∧ e.span.start ≤ e.span.stop ∧
      ((∀ p ∈ ps, p.new.isSome → p.old ≠ []) → e.span.start < e.span.stop) := by
  induction ps generalizing pos with
  | nil => exact absurd h List.not_mem_nil
  | cons p ps ih =>
    rcases List.mem_append.1 h with here | later
    · obtain ⟨new, some, rfl⟩ := List.mem_map.1 here
      refine ⟨Nat.le_refl _, Nat.le_add_right _ _, fun full => ?_⟩
      have isSome := Option.isSome_of_mem (Option.mem_toList.1 some)
      exact Nat.lt_add_of_pos_right (byteLength_pos (full p List.mem_cons_self isSome))
    · obtain ⟨le, forward, proper⟩ := ih later
      exact ⟨Nat.le_trans (Nat.le_add_right _ _) le, forward, fun full =>
        proper fun q hq => full q (.tail p hq)⟩

theorem edits_apart (pos : Nat) (ps : List Piece) : (edits pos ps).Pairwise Edit.Apart := by
  induction ps generalizing pos with
  | nil => exact .nil
  | cons p ps ih =>
    refine List.pairwise_append.2 ⟨?_, ih _, fun a ha b hb => ?_⟩
    · cases p.new with
      | none => exact .nil
      | some new => exact List.pairwise_singleton _ _
    · obtain ⟨new, -, rfl⟩ := List.mem_map.1 ha
      exact (mem_edits hb).1

/-- The pass copies the pieces that stay, among them what is left of the text in front of the first
one. -/
theorem applySorted_edits (cursor : Nat) (kept : List Char) (ps : List Piece) :
    Edit.applySorted cursor (kept ++ before ps) (edits (cursor + byteLength kept) ps) =
      .ok (kept ++ after ps) := by
  induction ps generalizing cursor kept with
  | nil => rfl
  | cons p ps ih =>
    obtain ⟨old, new⟩ := p
    cases new with
    | none =>
      have rest := ih cursor (kept ++ old)
      rw [byteLength_append, ← Nat.add_assoc] at rest
      simpa [edits, result] using rest
    | some new =>
      have rest := ih (cursor + byteLength kept + byteLength old) []
      have start : cursor + byteLength kept - cursor = byteLength kept :=
        Nat.add_sub_cancel_left _ _
      have stop : cursor + byteLength kept + byteLength old - cursor = byteLength (kept ++ old) := by
        rw [byteLength_append, Nat.add_assoc, Nat.add_sub_cancel_left]
      have later : max (cursor + byteLength kept + byteLength old) cursor =
          cursor + byteLength kept + byteLength old := Nat.max_eq_left (by omega)
      rw [byteLength_nil, Nat.add_zero, List.nil_append, List.nil_append] at rest
      simp only [edits, Option.toList_some, List.map_cons, List.map_nil, List.singleton_append,
        Edit.applySorted, Edit.replace, Span.ofLength, Nat.not_lt.2 (Nat.le_add_right _ _), if_false,
        later, start, stop, before_cons, isBoundary_append, takeBytes_append]
      rw [← List.append_assoc, isBoundary_append, dropBytes_append, rest]
      rfl

/-- All pieces give way at once. -/
theorem applyAll_edits (ps : List Piece) :
    Edit.applyAll (before ps) (edits 0 ps) = .ok (after ps) := by
  have ordered : (edits 0 ps).Pairwise fun a b => a.span.before b.span = true := by
    refine (edits_apart 0 ps).imp_of_mem fun {a b} ha hb apart => ?_
    have forward := (mem_edits ha).2.1
    have forward' := (mem_edits hb).2.1
    unfold Edit.Apart at apart
    exact Edit.before_iff.2 (by omega)
  rw [Edit.applyAll, List.mergeSort_of_pairwise ordered]
  exact applySorted_edits 0 [] ps

end Piece

/-- An edit can be given behind others as well that stand behind it in the text. -/
theorem Edit.applyAll_moved {text : List Char} {front back : List Edit} {e : Edit}
    (others : ∀ b ∈ back, b.span ≠ e.span) :
    applyAll text (front ++ (back ++ [e])) = applyAll text (front ++ e :: back) := by
  have same (s : Span) : (front ++ (back ++ [e])).filter (·.span = s) =
      (front ++ e :: back).filter (·.span = s) := by
    simp only [List.filter_append, List.filter_cons, List.filter_nil]
    by_cases here : e.span = s
    · have none : back.filter (·.span = s) = [] :=
        List.filter_eq_nil_iff.2 fun b hb => by simpa [← here] using others b hb
      simp [here, none]
    · simp [here]
  rw [applyAll, applyAll]
  exact congrArg (applySorted 0 text) (sorted_congr same)

/-- Something may be put in between the pieces of a text, in front of pieces of which each that gives
way is not empty. -/
theorem Piece.applyAll_insert (front : List Piece) {back : List Piece}
    (full : ∀ p ∈ back, p.new.isSome → p.old ≠ []) (new : List Char) :
    Edit.applyAll (before (front ++ back))
        (edits 0 (front ++ back) ++ [.insert (byteLength (before front)) new]) =
      .ok (after front ++ (new ++ after back)) := by
  have others : ∀ b ∈ edits (0 + byteLength (before front)) back,
      b.span ≠ (Edit.insert (byteLength (before front)) new).span := fun b hb same => by
    have proper := (mem_edits hb).2.2 full
    rw [same] at proper
    exact Nat.lt_irrefl _ proper
  have pieces := applyAll_edits (front ++ ⟨[], some new⟩ :: back)
  rw [before_append, before_cons, List.nil_append, ← before_append, after_append, after_cons] at pieces
  rw [edits_append, List.append_assoc, Edit.applyAll_moved others]
  rw [edits_append, edits_cons, Nat.zero_add] at pieces
  rw [Nat.zero_add]
  exact pieces

/-- Something behind each of a row and once more in front is as much in front of each and behind. -/
theorem flatMap_behind {α β : Type} (f : α → List β) (sep : List β) (as : List α) :
    as.flatMap (fun a => sep ++ f a) ++ sep = sep ++ as.flatMap fun a => f a ++ sep := by
  induction as with
  | nil => exact (List.append_nil sep).symm
  | cons a as ih =>
    rw [List.flatMap_cons, List.append_assoc, ih, List.flatMap_cons]
    simp only [List.append_assoc]

end FactorySync
