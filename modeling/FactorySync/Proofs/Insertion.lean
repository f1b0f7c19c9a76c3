import FactorySync.Literal.Insert
import FactorySync.Proofs.Edits
import FactorySync.Proofs.Tiling

/-!
# Inserting factories never fails

New members go behind the last member and a line comment after it, or between the braces of an empty
literal. Both places are boundaries of the text, so the edits can always be carried out, and the
factories come to stand in one block behind all members (`Node.insertFactories_text`).
-/

namespace FactorySync

variable {text : List Char}

theorem afterLineComment_le (text : List Char) (pos : Nat) : pos ≤ afterLineComment text pos := by
  unfold afterLineComment
  dsimp only
  split
  · exact Nat.le_add_right _ _
  · exact Nat.le_refl _

theorem afterLineComment_boundary {pos : Nat} (h : isBoundary pos text = true) :
    isBoundary (afterLineComment text pos) text = true := by
  unfold afterLineComment
  dsimp only
  split
  · have place := StandsAt.of_boundary h
    rw [← List.takeWhile_append_dropWhile (p := fun c => decide (c ≠ '\r' ∧ c ≠ '\n'))
      (l := dropBytes pos text)] at place
    exact place.after.isBoundary
  · exact h

theorem Edit.insert_cuts {pos : Nat} (h : isBoundary pos text = true) (added : List Char) :
    (Edit.insert pos added).span.Cuts text := ⟨Nat.le_refl _, h, h⟩

/-- What stands up to a later offset. -/
theorem takeBytes_slice {p q : Nat} (hp : isBoundary p text = true) (hq : isBoundary q text = true)
    (le : p ≤ q) : takeBytes q text = takeBytes p text ++ sliceBytes p q text := by
  obtain ⟨hdrop, hlength⟩ := (StandsAt.of_boundary hp).slice_between (.of_boundary hq) le
  have whole := takeBytes_append_dropBytes p text
  rw [hdrop, ← List.append_assoc] at whole
  have length : byteLength (takeBytes p text ++ sliceBytes p q text) = q := by
    rw [byteLength_append, byteLength_takeBytes hp, ← hlength]
  have front := takeBytes_append (takeBytes p text ++ sliceBytes p q text) (dropBytes q text)
  rwa [length, whole] at front

namespace Edit

theorem applyAll_singleton {e : Edit} (cuts : e.span.Cuts text) : applyAll text [e] =
    .ok (takeBytes e.span.start text ++ (e.text ++ dropBytes e.span.stop text)) := by
  rw [applyAll, List.mergeSort_of_pairwise (List.pairwise_singleton _ _),
    applySorted_cons (.zero text) cuts (Nat.zero_le _)]
  rfl

theorem applyAll_insertions {p q : Nat} (hp : isBoundary p text = true)
    (hq : isBoundary q text = true) (le : p ≤ q) (a b : List Char) :
    applyAll text [.insert p a, .insert q b] =
      .ok (takeBytes p text ++ (a ++ (sliceBytes p q text ++ (b ++ dropBytes q text)))) := by
  have sorted : [insert p a, insert q b].Pairwise fun a b => a.span.before b.span = true := by
    refine List.pairwise_pair.2 ?_
    change (decide (p < q) || (p == q && decide (p ≤ q))) = true
    simp only [Bool.or_eq_true, decide_eq_true_eq, Bool.and_eq_true, beq_iff_eq]
    omega
  have behind : StandsAt text p (dropBytes p text) := .of_boundary hp
  have rest := behind.drop_sub le hq
  rw [applyAll, List.mergeSort_of_pairwise sorted,
    applySorted_cons (.zero text) (insert_cuts hp a) (Nat.zero_le _)]
  change (applySorted p (dropBytes p text) [insert q b] >>= fun tail =>
    .ok (takeBytes p text ++ (a ++ tail))) = _
  rw [applySorted_cons behind (insert_cuts hq b) le]
  change Except.ok (takeBytes p text ++ (a ++ (takeBytes (q - p) (dropBytes p text) ++
    (b ++ dropBytes (q - p) (dropBytes p text))))) = _
  rw [← rest.dropBytes]
  rfl

end Edit

namespace Node

open Parse

/-- What stands in front of the factories that are inserted: the text up to the last member, which
gets a comma, and the comment behind it. -/
def insertionFront (text : List Char) (literal : Node) : List Char :=
  match literal.members.getLast? with
  | some last =>
    takeBytes last.fullStop text ++ ((if last.separatorEnd.isNone then [','] else []) ++
      sliceBytes last.fullStop (afterLineComment text last.fullStop) text)
  | none => takeBytes literal.openBraceEnd text

/-- What stands behind the factories that are inserted. -/
def insertionBack (text : List Char) (l : MemberLayout) (literal : Node) : List Char :=
  match literal.members.getLast? with
  | some last => dropBytes (afterLineComment text last.fullStop) text
  | none =>
    if (sliceBytes literal.openBraceEnd literal.closeBraceStart text).contains '\n' then
      dropBytes literal.openBraceEnd text
    else l.newLine ++ l.outer ++ dropBytes literal.closeBraceStart text

/-- All that ends with a member and its comma stays in front of the factories. -/
theorem insertionFront_keeps {start : Nat} {literal : Node} {m : Member}
    (tile : Member.Tile text start literal.members) (hm : m ∈ literal.members) :
    takeBytes m.fullStop text <+: literal.insertionFront text := by
  obtain ⟨i, hi⟩ := List.getElem?_of_mem hm
  cases hlast : literal.members.getLast? with
  | none => simp [List.getLast?_eq_none_iff.1 hlast] at hm
  | some last =>
    have hlast' : literal.members[literal.members.length - 1]? = some last := by
      rw [← List.getLast?_eq_getElem?, hlast]
    have le : m.fullStop ≤ last.fullStop := by
      have lt := (List.getElem?_eq_some_iff.1 hi).1
      rcases Nat.lt_or_ge i (literal.members.length - 1) with before | ge
      · exact Nat.le_trans (tile.comma_and_le hi hlast' before).2
          (tile.placed hlast').fullStart_le_fullStop
      · obtain rfl : i = literal.members.length - 1 := by omega
        cases hi.symm.trans hlast'
        exact Nat.le_refl _
    rw [insertionFront, hlast]
    dsimp only
    rw [takeBytes_slice (tile.placed hi).fullStop_boundary (tile.placed hlast').fullStop_boundary
      le, List.append_assoc]
    exact List.prefix_append _ _

/-- Behind the last member, or between the braces of an empty literal, there is room for more. -/
theorem insertionEdits_text {start : Nat} {literal : Node}
    (inside : (⟨literal.openBraceEnd, literal.closeBraceStart⟩ : Span).Cuts text)
    (tile : Member.Tile text start literal.members) (l : MemberLayout) (added : List Char) :
    ∃ edits, literal.insertionEdits text l added = .ok edits ∧ Edit.applyAll text edits =
      .ok (literal.insertionFront text ++ (added ++ literal.insertionBack text l)) := by
  unfold insertionEdits insertionFront insertionBack
  cases hlast : literal.members.getLast? with
  | some last =>
    obtain ⟨i, hi⟩ := List.getElem?_of_mem (List.mem_of_getLast? hlast)
    have place := (tile.placed hi).fullStop_boundary
    have behind := afterLineComment_boundary place
    have le := afterLineComment_le text last.fullStop
    refine ⟨_, rfl, ?_⟩
    dsimp only
    split
    · rw [List.singleton_append, Edit.applyAll_insertions place behind le]
      simp
    · rw [List.nil_append, Edit.applyAll_singleton (Edit.insert_cuts behind added)]
      simp [Edit.insert, Span.empty, takeBytes_slice place behind le]
  | none =>
    dsimp only
    rw [if_neg (Nat.not_lt.2 inside.start_le_stop)]
    by_cases breaks : (sliceBytes literal.openBraceEnd literal.closeBraceStart text).contains '\n'
    · refine ⟨_, if_pos breaks, ?_⟩
      rw [if_pos breaks, Edit.applyAll_singleton (Edit.insert_cuts inside.start_boundary added)]
      rfl
    · have inside' : (Edit.replace ⟨literal.openBraceEnd, literal.closeBraceStart⟩
          (added ++ l.newLine ++ l.outer)).span.Cuts text := inside
      refine ⟨_, if_neg breaks, ?_⟩
      rw [if_neg breaks, Edit.applyAll_singleton inside']
      simp [Edit.replace]

/-- Inserting factories puts them, one after the other, behind all members that are there. -/
theorem insertFactories_text {r s : Reading} {literal : Node} (h : Reads r literal s)
    (sound : r.Sound text) (isLiteral : literal.kind = .objectLiteralExpression)
    (factories : List Factory) (fallback : String) :
    literal.insertFactories text factories fallback = .ok {
      text :=
        if factories.isEmpty then text
        else
          let l := MemberLayout.ofLiteral text fallback.toList literal
          literal.insertionFront text ++
            (factories.flatMap l.factoryText ++ literal.insertionBack text l)
      names := factories.map (·.name) } := by
  obtain ⟨inside, tile⟩ := literal_tile h sound isLiteral
  unfold insertFactories
  dsimp only
  split
  · rfl
  · obtain ⟨edits, hedits, hout⟩ := insertionEdits_text inside tile
      (.ofLiteral text fallback.toList literal)
      (factories.flatMap (MemberLayout.ofLiteral text fallback.toList literal).factoryText)
    rw [hedits]
    change (Edit.applyAll text edits >>= _) = _
    rw [hout]
    rfl

end Node
end FactorySync
