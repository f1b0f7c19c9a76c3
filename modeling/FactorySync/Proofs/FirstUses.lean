import Mathlib.Data.List.Basic

/-!
# First uses

Where names are collected at their first use, the order is that of `List.eraseDups`: what is left
stands in the order of the first occurrences, hence only once (`nodup_eraseDups`), and a further
name comes last or changes nothing (`eraseDups_concat`).
-/

namespace FactorySync

variable {α : Type} [DecidableEq α] {l : List α} {x y : α}

theorem idxOf_lt_of_filter {q : α → Bool} (hx : q x = true) (hy : q y = true)
    (lt : (l.filter q).idxOf x < (l.filter q).idxOf y) : l.idxOf x < l.idxOf y := by
  induction l with
  | nil => exact lt
  | cons a l ih =>
    simp only [List.idxOf_cons, beq_iff_eq, cond_eq_ite]
    rw [List.filter_cons] at lt
    split at lt
    · simp only [List.idxOf_cons, beq_iff_eq, cond_eq_ite] at lt
      grind
    · next ha =>
      have hax : a ≠ x := fun h => ha (h ▸ hx)
      have hay : a ≠ y := fun h => ha (h ▸ hy)
      rw [if_neg hax, if_neg hay]
      exact Nat.succ_lt_succ (ih lt)

/-- What is left of repeated elements stands in the order of their first occurrences. -/
theorem pairwise_idxOf_eraseDups (l : List α) :
    l.eraseDups.Pairwise fun x y => l.idxOf x < l.idxOf y := by
  match l with
  | [] => exact .nil
  | a :: l =>
    have shorter : (l.filter fun b => !b == a).length < (a :: l).length :=
      Nat.lt_succ_of_le (List.length_filter_le _ _)
    have ih := pairwise_idxOf_eraseDups (l.filter fun b => !b == a)
    rw [List.eraseDups_cons]
    refine List.pairwise_cons.2 ⟨fun y hy => ?_, ih.imp_of_mem fun hx hy lt => ?_⟩
    · have other : a ≠ y := by rintro rfl; simp at hy
      simp [other]
    · have hx := (List.mem_filter.1 (List.mem_eraseDups.1 hx)).2
      have hy := (List.mem_filter.1 (List.mem_eraseDups.1 hy)).2
      have lt := idxOf_lt_of_filter (q := fun b => !b == a) hx hy lt
      simp only [Bool.not_eq_true', beq_eq_false_iff_ne] at hx hy
      simpa [List.idxOf_cons, Ne.symm hx, Ne.symm hy] using lt
termination_by l.length
decreasing_by exact shorter

theorem nodup_eraseDups (l : List α) : l.eraseDups.Nodup := by
  refine (pairwise_idxOf_eraseDups l).imp fun lt => ?_
  rintro rfl
  exact Nat.lt_irrefl _ lt

theorem eraseDups_concat (l : List α) (x : α) :
    (l ++ [x]).eraseDups = l.eraseDups ++ if x ∈ l then [] else [x] := by
  rw [List.eraseDups_append]
  split
  · next h => simp [List.removeAll, h]
  · next h => simp [List.removeAll, h, List.eraseDups_cons]

end FactorySync
