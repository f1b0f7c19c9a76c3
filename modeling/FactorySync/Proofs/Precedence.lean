import FactorySync.Proofs.Placement.Files
import FactorySync.Proofs.Target

/-!
# Operators group by precedence

All binary expressions in the tree of a file are grouped (`SourceFile.grouped_by_strength`), whether
or not the file has errors.
-/

namespace FactorySync

namespace SourceFile

/-- Whatever the text, a binary expression whose operator has the strength `p` has two operands. An
operator at the root of the left one has at least this strength, and there is none if the operator
is `**`; one at the root of the right one has more, or both are `**`. Neither is a conditional
expression, an arrow function or an assignment without parentheses. The left operand, the operator
as it is spelled and the right operand follow each other in the text, with only trivia in between,
and make up the whole expression. -/
theorem grouped_by_strength {path : String} {text : List Char} {n : Node} {k : Kind} {p : Nat}
    (found : (parse path text).tree.Contains n) (operator : n.operator? = some k)
    (strength : k.strength? = some p) :
    ∃ op left right, op.kind = k ∧ n.Grouped text op p left right := by
  obtain ⟨op, left, right, grouped⟩ := (made_of_contains found).grouped p
    (by rw [Node.strength?, operator]; exact strength)
  refine ⟨op, left, right, ?_, grouped⟩
  rw [Node.operator?, grouped.marks] at operator
  split at operator
  · exact Option.some_inj.1 operator
  · cases operator

/-- `**` groups to the right. -/
theorem powers_to_the_right : ∃ n op left right,
    (parse "power.ts" "2 ** x ** y".toList).tree.Contains n ∧
      n.operator? = some .asteriskAsterisk ∧ Kind.asteriskAsterisk.strength? = some 12 ∧
      n.Grouped "2 ** x ** y".toList op 12 left right ∧ left.operator? = none ∧
      right.operator? = some .asteriskAsterisk := by
  have test : ((parse "power.ts" "2 ** x ** y".toList).tree.children.head?.any fun statement =>
      statement.children.head?.any fun n => n.operator? == some .asteriskAsterisk &&
        n.children.map (·.operator?) == [none, some .asteriskAsterisk]) = true := by
    decide +kernel
  obtain ⟨statement, hstatement, test⟩ := (Option.any_eq_true _ _).1 test
  obtain ⟨n, hn, test⟩ := (Option.any_eq_true _ _).1 test
  simp only [Bool.and_eq_true, beq_iff_eq] at test
  have found := Node.Contains.child (List.mem_of_head? hstatement) (.of_mem (List.mem_of_head? hn))
  obtain ⟨op, left, right, -, grouped⟩ := grouped_by_strength found test.1 rfl
  have operands := test.2
  rw [grouped.children] at operands
  simp only [List.map_cons, List.map_nil, List.cons.injEq, and_true] at operands
  exact ⟨n, op, left, right, found, test.1, rfl, grouped, operands⟩

end SourceFile
end FactorySync
