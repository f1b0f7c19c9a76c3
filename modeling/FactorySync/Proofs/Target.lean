import FactorySync.Program.Target
import FactorySync.Proofs.Tiling

/-!
# Where the target literal is found

A lookup only ever goes down the tree: from a statement to its declarations, to an initializer, into
an assertion, through parentheses. So the literal it finds is a node of the file
(`Program.findLiteral_contains`), and what holds of the nodes of a file without errors holds of it.
-/

namespace FactorySync

namespace Node

variable {n m k : Node}

theorem Contains.trans (h : n.Contains m) (h' : m.Contains k) : n.Contains k := by
  induction h with
  | self => exact h'
  | child mem _ ih => exact .child mem (ih h')

theorem Contains.of_mem (h : m ∈ n.children) : n.Contains m := .child h (.self m)

theorem contains_of_child? {role : Role} (h : n.child? role = some m) : n.Contains m :=
  .of_mem (List.mem_of_find?_eq_some h)

theorem contains_of_childrenIn {role : Role} (h : m ∈ n.childrenIn role) : n.Contains m :=
  .of_mem (List.mem_filter.1 h).1

/-- What is inside parentheses is a node of the tree, or the node itself. -/
theorem contains_inner (n : Node) : n.Contains n.inner := by
  match n with
  | { role, kind, span, flags, modifiers, detail, marks, lists, children } =>
    rw [inner]
    split
    · match children with
      | [] => exact .self _
      | m :: _ => exact .child List.mem_cons_self (contains_inner m)
    · exact .self _

theorem contains_of_exportedConstants (h : m ∈ n.exportedConstants) : n.Contains m := by
  unfold exportedConstants at h
  split at h
  · obtain ⟨list, hlist, hm⟩ := List.mem_flatMap.1 h
    exact (contains_of_childrenIn (List.mem_filter.1 hlist).1).trans (contains_of_childrenIn hm)
  · exact absurd h List.not_mem_nil

theorem contains_of_asserted? (h : n.asserted? = some m) : n.Contains m := by
  unfold asserted? at h
  split at h
  · obtain ⟨c, hc, rfl⟩ := Option.map_eq_some_iff.1 h
    exact (contains_of_child? hc).trans (contains_inner c)
  · obtain ⟨c, hc, rfl⟩ := Option.map_eq_some_iff.1 h
    exact (contains_of_child? hc).trans (contains_inner c)
  · exact nomatch h

/-- The literal that is the value of a constant. -/
theorem literal_contains {expected : Shape} (h : n.literal expected = .ok m) :
    n.Contains m ∧ m.kind = .objectLiteralExpression := by
  unfold literal at h
  split at h
  · exact nomatch h
  · next value hvalue =>
    obtain ⟨c, hc, rfl⟩ := Option.map_eq_some_iff.1 hvalue
    have hcontains : n.Contains c.inner := (contains_of_child? hc).trans (contains_inner c)
    split at h
    · exact nomatch h
    · next inside hinside =>
      split at h
      · next hkind =>
        cases h
        exact ⟨hcontains.trans (contains_of_asserted? hinside), hkind⟩
      · exact nomatch h
    · split at h
      · next hkind =>
        cases h
        exact ⟨hcontains, hkind⟩
      · exact nomatch h

end Node

namespace Program

theorem ofProject_file? (project : Project) (id : FileId) :
    (ofProject project).file? id = (project.file? id).map fun f => .parse f.path f.text := by
  simp [ofProject, ofFiles, file?, Project.file?]

/-- A literal that is found is an object literal in the tree of the file. -/
theorem findLiteral_contains {p : Program} {file : FileId} {name : String} {expected : Shape}
    {literal : Node} (h : p.findLiteral file name expected = .ok literal) {f : SourceFile}
    (hf : p.file? file = some f) :
    f.tree.Contains literal ∧ literal.kind = .objectLiteralExpression := by
  unfold findLiteral findConstant at h
  dsimp only at h
  split at h
  · next declaration hfind =>
    have hmem := List.mem_of_find?_eq_some hfind
    rw [statements, hf, Option.map_some, Option.getD_some] at hmem
    obtain ⟨statement, hstatement, hdeclaration⟩ := List.mem_flatMap.1 hmem
    obtain ⟨hcontains, hkind⟩ := Node.literal_contains h
    exact ⟨.child hstatement ((Node.contains_of_exportedConstants hdeclaration).trans hcontains),
      hkind⟩
  · exact nomatch h

end Program
end FactorySync
