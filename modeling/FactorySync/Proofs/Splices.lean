import FactorySync.Proofs.Insertion
import Mathlib.Data.List.Basic

/-!
# A batch of edits is its edits one by one

A batch is carried out in one pass from left to right. The same text comes out if its edits, once
they are sorted, are made one at a time from the last to the first, each as a plain splice
(`Edit.applyAll_splices`). Both are the text woven anew: the gaps between the spans stay, and what
stands in a span gives way to the text of its edit (`Edit.woven`). The sort is stable, so a batch
can be given in any order that leaves the edits of each span in theirs.
-/

namespace FactorySync

namespace Edit

variable {text : List Char}

/-- The edits of a batch in the order in which they are carried out. -/
def sorted (es : List Edit) : List Edit := es.mergeSort fun a b => a.span.before b.span

/-- Puts the text of the edit in the place of its span. -/
def splice (e : Edit) (text : List Char) : List Char :=
  takeBytes e.span.start text ++ (e.text ++ dropBytes e.span.stop text)

/-- The text between two offsets with a piece for the span of each edit. -/
def woven (text : List Char) (piece : Edit → List Char) (lo hi : Nat) : List Edit → List Char
  | [] => sliceBytes lo hi text
  | e :: es => sliceBytes lo e.span.start text ++ (piece e ++ woven text piece e.span.stop hi es)

/-! ## Stable sorting -/

section Sorting

variable {es es' : List Edit}

theorem sorted_perm (es : List Edit) : (sorted es).Perm es := List.mergeSort_perm es _

theorem mem_sorted {e : Edit} : e ∈ sorted es ↔ e ∈ es := List.mem_mergeSort

theorem sorted_pairwise (es : List Edit) :
    (sorted es).Pairwise fun a b => a.span.before b.span = true :=
  List.pairwise_mergeSort before_trans before_total es

theorem before_iff {s t : Span} :
    s.before t = true ↔ s.start < t.start ∨ s.start = t.start ∧ s.stop ≤ t.stop := by
  simp [Span.before]

theorem before_self (s : Span) : s.before s = true := before_iff.2 (.inr ⟨rfl, Nat.le_refl _⟩)

theorem before_antisymm {s t : Span} (h : s.before t = true) (h' : t.before s = true) : s = t := by
  rw [before_iff] at h h'
  cases s
  cases t
  simp only [Span.mk.injEq] at *
  omega

theorem mem_filter_span {s : Span} {e : Edit} :
    e ∈ es.filter (·.span = s) ↔ e ∈ es ∧ e.span = s := by
  simp

/-- The edits of one span keep their order. -/
theorem sorted_filter (es : List Edit) (s : Span) :
    (sorted es).filter (·.span = s) = es.filter (·.span = s) := by
  have same : (es.filter (·.span = s)).Pairwise fun a b => a.span.before b.span = true := by
    refine List.pairwise_of_forall_mem_list fun a ha b hb => ?_
    rw [(mem_filter_span.1 ha).2, (mem_filter_span.1 hb).2]
    exact before_self s
  have kept : (es.filter (·.span = s)).Sublist (sorted es) :=
    List.sublist_mergeSort before_trans before_total same List.filter_sublist
  have inside := kept.filter (·.span = s)
  rw [List.filter_filter] at inside
  simp only [Bool.and_self] at inside
  exact (inside.eq_of_length ((sorted_perm es).filter _).length_eq.symm).symm

/-- Sorted edits are determined by the edits of each span. -/
theorem eq_of_filters (ordered : es.Pairwise fun a b => a.span.before b.span = true)
    (ordered' : es'.Pairwise fun a b => a.span.before b.span = true)
    (h : ∀ s, es.filter (·.span = s) = es'.filter (·.span = s)) : es = es' := by
  have mem {e : Edit} : e ∈ es ↔ e ∈ es' := by
    simpa using congrArg (e ∈ ·) (h e.span)
  induction es generalizing es' with
  | nil => exact (List.eq_nil_iff_forall_not_mem.2 fun e he => nomatch mem.2 he).symm
  | cons a es ih =>
    cases es' with
    | nil => exact absurd (mem.1 List.mem_cons_self) List.not_mem_nil
    | cons b es' =>
      have least {c : Edit} {cs : List Edit} {d : Edit} (hd : d ∈ c :: cs)
          (first : (c :: cs).Pairwise fun a b => a.span.before b.span = true) :
          c.span.before d.span = true := by
        rcases List.mem_cons.1 hd with rfl | hd
        · exact before_self _
        · exact (List.pairwise_cons.1 first).1 d hd
      have spans : b.span = a.span :=
        before_antisymm (least (mem.1 List.mem_cons_self) ordered')
          (least (mem.2 List.mem_cons_self) ordered)
      have heads := h a.span
      rw [List.filter_cons_of_pos (by simp), List.filter_cons_of_pos (by simp [spans])] at heads
      obtain ⟨rfl, -⟩ := List.cons.inj heads
      have tails (s : Span) : es.filter (·.span = s) = es'.filter (·.span = s) := by
        have hs := h s
        simp only [List.filter_cons] at hs
        split at hs
        · exact (List.cons.inj hs).2
        · exact hs
      rw [ih (List.pairwise_cons.1 ordered).2 (List.pairwise_cons.1 ordered').2 tails]
      intro e
      simpa using congrArg (e ∈ ·) (tails e.span)

/-- The order in which edits are given matters only among the edits of one span. -/
theorem sorted_congr (h : ∀ s, es'.filter (·.span = s) = es.filter (·.span = s)) :
    sorted es' = sorted es := by
  refine eq_of_filters (sorted_pairwise es') (sorted_pairwise es) fun s => ?_
  rw [sorted_filter, sorted_filter, h s]

/-- At any offset sorted edits fall in three: those that begin before it, the insertions at it, and
those that begin there or behind it. -/
theorem pairwise_split (ordered : es.Pairwise fun a b => a.span.before b.span = true)
    (forward : ∀ e ∈ es, e.span.start ≤ e.span.stop) (p : Nat) :
    es = es.filter (·.span.start < p) ++ (es.filter (·.span = .empty p) ++
      es.filter fun e => p ≤ e.span.start ∧ p < e.span.stop) := by
  induction es with
  | nil => rfl
  | cons e es ih =>
    obtain ⟨first, rest⟩ := List.pairwise_cons.1 ordered
    have ih := ih rest fun e' h => forward e' (.tail e h)
    have le := forward e List.mem_cons_self
    by_cases early : e.span.start < p
    · have notHere : e.span ≠ .empty p := fun h => by simp [h, Span.empty] at early
      have notLate : ¬(p ≤ e.span.start ∧ p < e.span.stop) := by omega
      simpa [List.filter_cons, early, notHere, notLate] using ih
    · have notEarly : es.filter (·.span.start < p) = [] := by
        refine List.filter_eq_nil_iff.2 fun e' h => ?_
        have := before_iff.1 (first e' h)
        rw [decide_eq_true_eq]
        omega
      rw [notEarly, List.nil_append] at ih
      by_cases here : e.span = .empty p
      · have notLate : ¬(p ≤ e.span.start ∧ p < e.span.stop) := by simp [here, Span.empty]
        simpa [List.filter_cons, early, here, notLate, notEarly, Span.empty] using ih
      · have late : p ≤ e.span.start ∧ p < e.span.stop := by
          refine ⟨Nat.le_of_not_lt early, Nat.lt_of_not_le fun stops => here ?_⟩
          cases he : e.span
          simp only [he, Span.empty, Span.mk.injEq] at *
          omega
        have notHere : es.filter (·.span = .empty p) = [] := by
          refine List.filter_eq_nil_iff.2 fun e' h isHere => ?_
          have := before_iff.1 (first e' h)
          rw [of_decide_eq_true isHere] at this
          simp only [Span.empty] at this
          omega
        rw [notHere, List.nil_append] at ih
        simpa [List.filter_cons, early, here, late, notEarly, notHere] using ih

end Sorting

/-! ## The pass and the splices -/

section Weaving

variable {piece : Edit → List Char} {lo hi : Nat} {es : List Edit}

theorem pairwise_of_isChain (cuts : ∀ e ∈ es, e.span.Cuts text) (chain : es.IsChain Apart) :
    es.Pairwise Apart := by
  induction es with
  | nil => exact .nil
  | cons e es ih =>
    have rest := ih (fun e' h => cuts e' (.tail e h)) chain.of_cons
    refine List.pairwise_cons.2 ⟨fun e' h => ?_, rest⟩
    cases es with
    | nil => exact absurd h List.not_mem_nil
    | cons e'' es =>
      have next := (List.isChain_cons_cons.1 chain).1
      rcases List.mem_cons.1 h with rfl | h
      · exact next
      · exact Nat.le_trans next (Nat.le_trans (cuts e'' (.tail e (.head es))).start_le_stop
          ((List.pairwise_cons.1 rest).1 e' h))

theorem sliceBytes_stop {p : Nat} (h : isBoundary p text = true) :
    sliceBytes p (byteLength text) text = dropBytes p text := by
  have place : StandsAt text p (dropBytes p text ++ []) := by simpa using StandsAt.of_boundary h
  have length := place.length_eq
  rw [List.append_nil] at length
  rw [← length, place.slice]

/-- One pass over sorted edits weaves the text anew. -/
theorem applySorted_woven {cursor : Nat} {rest : List Char} (place : StandsAt text cursor rest)
    (cuts : ∀ e ∈ es, e.span.Cuts text) (behind : ∀ e ∈ es, cursor ≤ e.span.start)
    (apart : es.Pairwise Apart) :
    applySorted cursor rest es = .ok (woven text (·.text) cursor (byteLength text) es) := by
  induction es generalizing cursor rest with
  | nil => rw [applySorted, woven, sliceBytes_stop place.isBoundary, place.dropBytes]
  | cons e es ih =>
    have he := cuts e List.mem_cons_self
    have begins := behind e List.mem_cons_self
    obtain ⟨first, apart⟩ := List.pairwise_cons.1 apart
    have next := place.drop_sub (Nat.le_trans begins he.start_le_stop) he.stop_boundary
    rw [applySorted_cons place he begins, ih next (fun e' h => cuts e' (.tail e h)) first apart,
      woven, sliceBytes, place.dropBytes]
    rfl

/-- The splices, made from the last to the first, weave the text anew from the first span on. -/
theorem foldr_splice (boundary : isBoundary lo text = true) (cuts : ∀ e ∈ es, e.span.Cuts text)
    (behind : ∀ e ∈ es, lo ≤ e.span.start) (apart : es.Pairwise Apart) :
    es.foldr splice text =
      takeBytes lo text ++ woven text (·.text) lo (byteLength text) es := by
  induction es generalizing lo with
  | nil => rw [woven, sliceBytes_stop boundary, takeBytes_append_dropBytes]; rfl
  | cons e es ih =>
    have he := cuts e List.mem_cons_self
    have begins := behind e List.mem_cons_self
    obtain ⟨first, apart⟩ := List.pairwise_cons.1 apart
    have tail := ih he.stop_boundary (fun e' h => cuts e' (.tail e h)) first apart
    have front := takeBytes_slice he.start_boundary he.stop_boundary he.start_le_stop
    have cutStart := takeBytes_append (takeBytes e.span.start text)
      (e.span.slice text ++ woven text (·.text) e.span.stop (byteLength text) es)
    have cutStop := dropBytes_append (takeBytes e.span.stop text)
      (woven text (·.text) e.span.stop (byteLength text) es)
    rw [byteLength_takeBytes he.start_boundary, ← List.append_assoc] at cutStart
    rw [byteLength_takeBytes he.stop_boundary] at cutStop
    rw [List.foldr_cons, tail, splice, cutStop, front]
    rw [Span.slice] at cutStart
    rw [cutStart, takeBytes_slice boundary he.start_boundary begins, woven, List.append_assoc]

/-- The pieces that stand in the spans give back the text itself. -/
theorem woven_slices (boundary : isBoundary lo text = true) (cuts : ∀ e ∈ es, e.span.Cuts text)
    (behind : ∀ e ∈ es, lo ≤ e.span.start) (apart : es.Pairwise Apart) :
    woven text (·.span.slice text) lo (byteLength text) es = dropBytes lo text := by
  induction es generalizing lo with
  | nil => exact sliceBytes_stop boundary
  | cons e es ih =>
    have he := cuts e List.mem_cons_self
    have begins := behind e List.mem_cons_self
    obtain ⟨first, apart⟩ := List.pairwise_cons.1 apart
    have atStart := StandsAt.of_boundary he.start_boundary
    have toStart := (StandsAt.of_boundary boundary).slice_between atStart begins
    have toStop := atStart.slice_between (.of_boundary he.stop_boundary) he.start_le_stop
    rw [woven, ih he.stop_boundary (fun e' h => cuts e' (.tail e h)) first apart, Span.slice,
      ← toStop.1, ← toStart.1]

theorem woven_append_cons (front : List Edit) (e : Edit) :
    woven text piece lo hi (front ++ e :: es) =
      woven text piece lo e.span.start front ++ (piece e ++ woven text piece e.span.stop hi es) := by
  induction front generalizing lo with
  | nil => rfl
  | cons d front ih => simp only [List.cons_append, woven, ih, List.append_assoc]

/-- Insertions at one offset stand side by side there. -/
theorem woven_insertions {inserted : List Edit} {p : Nat} (front : List Edit)
    (nonempty : inserted ≠ []) (here : ∀ e ∈ inserted, e.span = .empty p) :
    woven text piece lo hi (front ++ (inserted ++ es)) =
      woven text piece lo p front ++ (inserted.flatMap piece ++ woven text piece p hi es) := by
  induction inserted generalizing lo front with
  | nil => exact absurd rfl nonempty
  | cons e inserted ih =>
    have he : e.span = .empty p := here e List.mem_cons_self
    rw [List.cons_append, woven_append_cons, he, List.flatMap_cons]
    cases inserted with
    | nil => simp [Span.empty]
    | cons d inserted =>
      have rest : woven text piece p hi ([] ++ (d :: inserted ++ es)) = _ :=
        ih [] (List.cons_ne_nil d inserted) fun e' h => here e' (.tail e h)
      rw [List.nil_append, woven, sliceBytes, Nat.sub_self, takeBytes_zero, List.nil_append] at rest
      rw [Span.empty, rest, List.append_assoc]

end Weaving

/-- A batch whose edits, once sorted, follow one another is carried out as the splices of its edits
from the last to the first. It may be given in any order that keeps the order of the edits of each
span. The insertions at an offset stand there in the order in which they are given, behind all that
begins earlier and in front of what is put in the place of the text from there on. All outside the
spans stays as it is. -/
theorem applyAll_splices {es : List Edit} (cuts : ∀ e ∈ es, e.span.Cuts text)
    (chain : (sorted es).IsChain Apart) :
    applyAll text es = .ok ((sorted es).foldr splice text) ∧
    (∀ es', (∀ s, es'.filter (·.span = s) = es.filter (·.span = s)) →
      applyAll text es' = .ok ((sorted es).foldr splice text)) ∧
    (∀ p, (∃ e ∈ es, e.span = .empty p) → ∃ earlier later,
      sorted es = earlier ++ (es.filter (·.span = .empty p) ++ later) ∧
      (∀ e ∈ earlier, e.span.start < p) ∧
      (∀ e ∈ later, p ≤ e.span.start ∧ p < e.span.stop) ∧
      (sorted es).foldr splice text = woven text (·.text) 0 p earlier ++
        ((es.filter (·.span = .empty p)).flatMap (·.text) ++
          woven text (·.text) p (byteLength text) later)) ∧
    (sorted es).foldr splice text = woven text (·.text) 0 (byteLength text) (sorted es) ∧
    text = woven text (·.span.slice text) 0 (byteLength text) (sorted es) := by
  have cuts' : ∀ e ∈ sorted es, e.span.Cuts text := fun e h => cuts e (mem_sorted.1 h)
  have apart := pairwise_of_isChain cuts' chain
  have behind : ∀ e ∈ sorted es, 0 ≤ e.span.start := fun e _ => Nat.zero_le _
  have whole : (sorted es).foldr splice text =
      woven text (·.text) 0 (byteLength text) (sorted es) := by
    rw [foldr_splice (isBoundary_zero text) cuts' behind apart, takeBytes_zero, List.nil_append]
  have pass : applySorted 0 text (sorted es) = .ok ((sorted es).foldr splice text) := by
    rw [applySorted_woven (.zero text) cuts' behind apart, whole]
  refine ⟨pass, fun es' h => ?_, fun p ⟨e, he, here⟩ => ?_, whole, ?_⟩
  · rw [applyAll, ← sorted, sorted_congr h, pass]
  · have split := pairwise_split (sorted_pairwise es) (fun e h => (cuts' e h).start_le_stop) p
    rw [sorted_filter] at split
    refine ⟨_, _, split, fun e h => by simpa using List.of_mem_filter h,
      fun e h => by simpa using List.of_mem_filter h, ?_⟩
    rw [whole]
    conv_lhs => rw [split]
    exact woven_insertions _ (List.ne_nil_of_mem (mem_filter_span.2 ⟨he, here⟩)) fun e h =>
      (mem_filter_span.1 h).2
  · rw [woven_slices (isBoundary_zero text) cuts' behind apart, dropBytes_zero]

/-- Two insertions and a replacement at one offset, and a replacement that ends there, not in
order. -/
def adjoining : List Edit :=
  [⟨⟨1, 3⟩, ['y']⟩, ⟨⟨1, 1⟩, ['1']⟩, ⟨⟨0, 1⟩, ['x']⟩, ⟨⟨1, 1⟩, ['2']⟩]

theorem sorted_adjoining : sorted adjoining =
    [⟨⟨0, 1⟩, ['x']⟩, ⟨⟨1, 1⟩, ['1']⟩, ⟨⟨1, 1⟩, ['2']⟩, ⟨⟨1, 3⟩, ['y']⟩] := by
  simp [sorted, adjoining, List.mergeSort, List.MergeSort.Internal.splitInTwo, Span.before]

theorem adjoining_splices :
    (∀ e ∈ adjoining, e.span.Cuts "aéb".toList) ∧ (sorted adjoining).IsChain Apart ∧
    applyAll "aéb".toList adjoining = .ok "x12yb".toList ∧
    applyAll "aéb".toList [⟨⟨1, 1⟩, ['1']⟩, ⟨⟨1, 1⟩, ['2']⟩, ⟨⟨1, 3⟩, ['y']⟩, ⟨⟨0, 1⟩, ['x']⟩] =
      .ok "x12yb".toList := by
  have cuts : ∀ e ∈ adjoining, e.span.Cuts "aéb".toList := by
    have ends : ∀ e ∈ adjoining, e.span.start ≤ e.span.stop ∧
        isBoundary e.span.start "aéb".toList ∧ isBoundary e.span.stop "aéb".toList := by decide
    exact fun e he => ⟨(ends e he).1, (ends e he).2.1, (ends e he).2.2⟩
  have chain : (sorted adjoining).IsChain Apart := by
    rw [sorted_adjoining]
    simp [Apart]
  obtain ⟨pass, reordered, -⟩ := applyAll_splices cuts chain
  rw [sorted_adjoining] at pass reordered
  refine ⟨cuts, chain, pass, reordered _ fun s => ?_⟩
  by_cases insertion : s = ⟨1, 1⟩
  · rw [insertion]
    decide
  · by_cases front : s = ⟨0, 1⟩
    · rw [front]
      decide
    · simp [adjoining, List.filter_cons, eq_comm, insertion, front]

end Edit
end FactorySync
