import FactorySync.Proofs.Removal

/-!
# When generated methods can be cleared

The members of a literal are taken out in one batch of edits. Two removal spans overlap exactly if
the members are next to each other and the first one alone is taken out with its lines
(`Member.Tile.apart_iff`), so clearing fails exactly if two such members are both generated
(`Node.clearGenerated_isOk_iff`).
-/

namespace FactorySync

namespace Member

variable {text : List Char} {start i j : Nat} {ms : List Member} {a b : Member}

/-! ## Members apart -/

/-- A member is taken out before the next but one begins. -/
theorem Tile.removal_stop_le_fullStart (h : Tile text start ms) (hi : ms[i]? = some a)
    (hj : ms[j]? = some b) (lt : i + 1 < j) : (a.removalSpan text).stop ≤ b.fullStart := by
  have len : i + 1 < ms.length := Nat.lt_trans lt (List.getElem?_eq_some_iff.1 hj).1
  have hm : ms[i + 1]? = some ms[i + 1] := List.getElem?_eq_getElem len
  have middle := h.placed hm
  have first := (h.placed hi).removal_stop_le middle (h.follows hi hm)
  have second := (h.comma_and_le hm hj lt).2
  have := middle.cuts.start_le_stop
  have := middle.stop_le
  omega

/-- Of two members in order, the removal spans overlap exactly if the members are next to each other
and only the first one is taken out with its lines. -/
theorem Tile.apart_iff (h : Tile text start ms) (hi : ms[i]? = some a) (hj : ms[j]? = some b)
    (lt : i < j) : (a.removalSpan text).stop ≤ (b.removalSpan text).start ↔
      ¬ (j = i + 1 ∧ a.onOwnLines text = true ∧ b.onOwnLines text = false) := by
  have ha := h.placed hi
  have hb := h.placed hj
  by_cases next : j = i + 1
  · subst next
    rw [ha.apart_iff hb (h.follows hi hj)]
    simp
  · -- the member in between keeps the two apart
    refine ⟨fun _ ⟨next', _⟩ => next next', fun _ => ?_⟩
    exact Nat.le_trans (h.removal_stop_le_fullStart hi hj (by omega)) hb.removal_bounds.1

/-- Members in order are taken out in order. -/
theorem Tile.removal_start_lt (h : Tile text start ms) (hi : ms[i]? = some a)
    (hj : ms[j]? = some b) (lt : i < j) :
    (a.removalSpan text).start < (b.removalSpan text).start := by
  obtain ⟨comma, le⟩ := h.comma_and_le hi hj lt
  have ha := h.placed hi
  have := ha.removal_bounds.2.1
  have := ha.cuts.start_le_stop
  have := ha.separated comma
  have := (h.placed hj).removal_bounds.1
  omega

/-- A pair of neighbours of which only the first is taken out with its lines. -/
def Clash (text : List Char) (p : Member → Bool) (ms : List Member) : Prop :=
  ∃ i a b, ms[i]? = some a ∧ ms[i + 1]? = some b ∧ p a = true ∧ p b = true ∧
    a.onOwnLines text = true ∧ b.onOwnLines text = false

instance (text : List Char) (p : Member → Bool) (ms : List Member) :
    Decidable (Clash text p ms) :=
  decidable_of_iff (∃ pair ∈ ms.zip ms.tail, p pair.1 = true ∧ p pair.2 = true ∧
      pair.1.onOwnLines text = true ∧ pair.2.onOwnLines text = false) <| by
    constructor
    · rintro ⟨⟨a, b⟩, hmem, clash⟩
      obtain ⟨i, hi⟩ := List.mem_iff_getElem?.1 hmem
      obtain ⟨ha, hb⟩ := List.getElem?_zip_eq_some.1 hi
      exact ⟨i, a, b, ha, List.getElem?_tail ▸ hb, clash⟩
    · rintro ⟨i, a, b, ha, hb, clash⟩
      exact ⟨(a, b), List.mem_iff_getElem?.2 ⟨i, List.getElem?_zip_eq_some.2
        ⟨ha, List.getElem?_tail.trans hb⟩⟩, clash⟩

theorem Tile.pairwise_iff (h : Tile text start ms) (p : Member → Bool) :
    (ms.filter p).Pairwise (fun a b => (a.removalSpan text).stop ≤ (b.removalSpan text).start) ↔
      ¬ Clash text p ms := by
  rw [List.pairwise_filter, List.pairwise_iff_getElem]
  constructor
  · rintro apart ⟨i, a, b, hi, hj, pa, pb, hown, hown'⟩
    obtain ⟨li, rfl⟩ := List.getElem?_eq_some_iff.1 hi
    obtain ⟨lj, rfl⟩ := List.getElem?_eq_some_iff.1 hj
    have := apart i (i + 1) li lj (Nat.lt_succ_self i) pa pb
    rw [h.apart_iff hi hj (Nat.lt_succ_self i)] at this
    exact this ⟨rfl, hown, hown'⟩
  · intro none i j li lj lt pa pb
    have hi := List.getElem?_eq_getElem li
    have hj := List.getElem?_eq_getElem lj
    rw [h.apart_iff hi hj lt]
    rintro ⟨rfl, hown, hown'⟩
    exact none ⟨i, _, _, hi, hj, pa, pb, hown, hown'⟩

/-- The edits that take the members out that satisfy `p`. -/
def deletions (text : List Char) (p : Member → Bool) (ms : List Member) : List Edit :=
  (ms.filter p).map fun m => .delete (m.removalSpan text)

theorem mem_deletions {p : Member → Bool} {e : Edit} : e ∈ deletions text p ms ↔
    ∃ m ∈ ms, p m = true ∧ .delete (m.removalSpan text) = e := by
  simp [deletions, and_assoc]

theorem Tile.deletions_cuts (h : Tile text start ms) (p : Member → Bool) :
    ∀ e ∈ deletions text p ms, e.span.Cuts text := by
  intro e he
  obtain ⟨m, hm, -, rfl⟩ := mem_deletions.1 he
  obtain ⟨i, hi⟩ := List.getElem?_of_mem hm
  exact (h.placed hi).removal_cuts

theorem Tile.deletions_sorted (h : Tile text start ms) (p : Member → Bool) :
    (deletions text p ms).Pairwise fun a b => a.span.before b.span = true := by
  rw [deletions, List.pairwise_map]
  refine List.Pairwise.filter _ (List.pairwise_iff_getElem.2 fun i j li lj lt => ?_)
  have := h.removal_start_lt (List.getElem?_eq_getElem li) (List.getElem?_eq_getElem lj) lt
  simp [Edit.delete, Span.before, this]

/-- The members that satisfy `p` can be taken out exactly if no two of them clash. -/
theorem Tile.deletions_isOk_iff (h : Tile text start ms) (p : Member → Bool) :
    (∃ out, Edit.applyAll text (deletions text p ms) = .ok out) ↔ ¬ Clash text p ms := by
  rw [Edit.applyAll_isOk_iff (h.deletions_cuts p) (h.deletions_sorted p), deletions,
    List.pairwise_map]
  exact h.pairwise_iff p

end Member

namespace Node

variable {text : List Char} {literal : Node}

/-- Clearing is a batch of deletions. -/
theorem clearGenerated_eq_ok {lead : String} {change : MemberChange} :
    literal.clearGenerated text lead = .ok change ↔
      Edit.applyAll text (Member.deletions text (·.isGenerated lead) literal.members) =
        .ok change.text ∧
      change.names = (literal.members.filter (·.isGenerated lead)).filterMap (·.name?) := by
  simp only [clearGenerated, bind_eq_ok]
  constructor
  · rintro ⟨out, hout, h⟩
    cases h
    exact ⟨hout, rfl⟩
  · rintro ⟨hout, hnames⟩
    exact ⟨_, hout, by rw [← hnames]; rfl⟩

/-- Clearing the generated methods of a literal of which the members lie in order fails exactly if
two generated neighbours clash. -/
theorem clearGenerated_isOk_iff {start : Nat} (tile : Member.Tile text start literal.members)
    (lead : String) : (∃ change, literal.clearGenerated text lead = .ok change) ↔
      ¬ Member.Clash text (·.isGenerated lead) literal.members := by
  rw [← tile.deletions_isOk_iff]
  simp only [clearGenerated_eq_ok]
  exact ⟨fun ⟨change, hout, _⟩ => ⟨change.text, hout⟩, fun ⟨out, hout⟩ => ⟨⟨out, _⟩, hout, rfl⟩⟩

end Node
end FactorySync
