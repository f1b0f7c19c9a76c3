import FactorySync.Proofs.GeneratedFiles
import FactorySync.Proofs.Outlines
import FactorySync.Proofs.Stages

/-!
# What a generated file declares and mentions

The outline of the literal is that of `GeneratedFile.literalTree`, which knows of the file only what
its members are. So two generated files with the same members need the same names from elsewhere
(`GeneratedFile.Read.references_eq`). To other files all generated files are
alike: they declare the constant and no interface, and pass nothing on.
-/

namespace FactorySync

open FactorySync.Parser

/-! ## Exported constants -/

namespace Parser.ExportsLiteral

variable {x : String} {P : Node → Prop} {n : Node}

theorem kind (h : ExportsLiteral x P n) : n.kind = .variableStatement := by
  obtain ⟨name, literal, type, value, declaration, list, whole, -, -, -, rfl⟩ := h
  rfl

theorem isExported (h : ExportsLiteral x P n) : n.isExported = true := by
  obtain ⟨name, literal, type, value, declaration, list, whole, -, -, -, rfl⟩ := h
  rfl

theorem declared (h : ExportsLiteral x P n) : n.declared = [⟨x, .value⟩] := by
  obtain ⟨name, literal, type, value, declaration, list, whole, hname, -, -, rfl⟩ := h
  have bound : (name.inRole .name).boundNames = [x] := by
    rw [← Node.boundNames_outline, Node.outline_inRole, Node.outline_of_unplaced hname,
      ← Node.outline_inRole, Node.boundNames_outline]
    rfl
  have names : Node.boundNamesIn .name (binding name (assertion literal type value) declaration).children
      = [x] := by
    rw [binding, Node.boundNamesIn, Node.boundNamesIn, Node.boundNamesIn, bound]
    rfl
  show ([(binding name (assertion literal type value) declaration).inRole .declarations].flatMap
    fun d => Node.boundNamesIn .name d.children).map _ = _
  rw [List.flatMap_singleton]
  exact congrArg (List.map _) names

/-- The constant is found by its name, and its value is the literal. -/
theorem exportedConstants (h : ExportsLiteral x P n) : ∃ d literal, P literal ∧
    n.exportedConstants = [d] ∧ d.nameIn? .name = some x ∧
      (literal.kind = .objectLiteralExpression →
        d.literal .asserted = .ok (literal.inRole .expression)) := by
  obtain ⟨name, literal, type, value, declaration, list, whole, hname, hliteral, -, rfl⟩ := h
  refine ⟨_, literal, hliteral, rfl, ?_, fun isLiteral => ?_⟩
  · show name.identifierName? = some x
    rw [← Node.identifierName?_outline, Node.outline_of_unplaced hname,
      Node.identifierName?_outline]
    rfl
  · obtain ⟨role, kind, span, flags, modifiers, detail, marks, lists, children⟩ := literal
    cases isLiteral
    rfl

/-- Apart from places, all that a statement can be is the literal. -/
theorem outline (h : ExportsLiteral x P n) {tree : Node}
    (same : ∀ literal, P literal → literal.outline = tree.outline) :
    n.outline = (exportedConstant (binding (TypeTerm.nameTree x)
      (assertion tree (TypeTerm.word .constKeyword).tree (.empty 0)) (.empty 0)) (.empty 0)
        (.empty 0)).outline := by
  obtain ⟨name, literal, type, value, declaration, list, whole, hname, hliteral, htype, rfl⟩ := h
  have hname := Node.outline_of_unplaced hname
  have htype := Node.outline_of_unplaced htype
  have hliteral := same literal hliteral
  simp only [exportedConstant, binding, assertion, Node.outline_inRole, Node.outline_mk,
    List.map_cons, List.map_nil, hname, htype, hliteral]

end Parser.ExportsLiteral

/-! ## The whole file -/

namespace GeneratedFile

variable {c : Config} {g g' : GeneratedFile} {f f' : SourceFile}

/-- The literal without its place. -/
def literalTree (entries : List Entry) : Node :=
  literalNode (.empty 0) {} (entries.map fun e => (e.tree.inRole .properties, some 0))

theorem EntriesAt.outlines {n : NewLine} {pos : Nat} {entries : List Entry}
    {ms : List (Node × Option Nat)} (h : EntriesAt n pos entries ms) :
    (ms.map (·.1)).map (·.outline) = entries.map (·.tree.outline.inRole .properties) ∧
      (ms.map (·.2)).map (·.map fun _ => 0) = entries.map fun _ => some 0 := by
  induction h with
  | nil => exact ⟨rfl, rfl⟩
  | @cons pos e entries n ms outline start others ih =>
    obtain ⟨members, ends⟩ := ih
    exact ⟨by simp only [List.map_cons, outline, members],
      by simp only [List.map_cons, ends]; rfl⟩

theorem LiteralAt.outline {pos : Nat} {n : Node} (h : g.LiteralAt pos n) :
    n.outline = (literalTree g.body.entries).outline := by
  obtain ⟨flags, ms, entries, rfl⟩ := h
  obtain ⟨members, ends⟩ := entries.outlines
  rw [literalTree, literalNode, literalNode, Node.outline_mk, Node.outline_mk, Detail.unplaced,
    Detail.unplaced, members, ends]
  simp [Function.comp_def, Node.outline_inRole]

namespace Read

theorem clean (h : g.Read c f) : f.hasErrors = false := by
  rw [SourceFile.hasErrors, h.notes]
  rfl

theorem areImports (h : g.Read c f) : ∀ n ∈ f.imports, n.kind = .importDeclaration :=
  importsAt_kind h.imports

/-- Two generated files with the same members need the same names. -/
theorem references_eq (h : g.Read c f) (h' : g'.Read c f')
    (same : g.body.entries = g'.body.entries) : f.references = f'.references := by
  obtain ⟨n, statements, hn⟩ := h.constant
  obtain ⟨n', statements', hn'⟩ := h'.constant
  refine SourceFile.references_congr statements statements' h.areImports h'.areImports ?_
  have outline := hn.outline fun _ literal => literal.outline
  have outline' := hn'.outline fun _ literal => literal.outline
  rw [← same] at outline'
  rw [List.map_singleton, List.map_singleton, outline, outline']

/-! ## What other files see -/

theorem declarations (h : g.Read c f) :
    (Module.ofFile f).declarations = [(⟨c.targetConst, .value⟩, true)] := by
  obtain ⟨n, statements, hn⟩ := h.constant
  have none : f.imports.flatMap (fun n => n.declared.map fun d => (d, n.isExported)) = [] :=
    List.flatMap_eq_nil_iff.2 fun m hm => by
      rw [Node.declared, h.areImports m hm]
      rfl
  rw [Module.ofFile, statements, List.flatMap_append, none, List.flatMap_singleton, hn.declared,
    hn.isExported]
  rfl

theorem kinds (h : g.Read c f) :
    ∀ m ∈ f.statements, m.kind = .importDeclaration ∨ m.kind = .variableStatement := by
  obtain ⟨n, statements, hn⟩ := h.constant
  rw [statements]
  exact List.forall_mem_append.2 ⟨fun m hm => .inl (h.areImports m hm),
    List.forall_mem_singleton.2 (.inr hn.kind)⟩

theorem reexports (h : g.Read c f) : (Module.ofFile f).reexports = [] := by
  refine List.filterMap_eq_nil_iff.2 fun m hm => ?_
  rw [Reexport.ofNode?, if_neg]
  obtain kind | kind := h.kinds m hm <;> rw [kind] <;> exact nofun

theorem interfaces (h : g.Read c f) :
    f.statements.filter (·.kind == .interfaceDeclaration) = [] := by
  refine List.filter_eq_nil_iff.2 fun m hm => ?_
  obtain kind | kind := h.kinds m hm <;> rw [kind] <;> exact nofun

/-! ## The target -/

/-- A run finds the literal. -/
theorem target (h : g.Read c f) {p : Program} {file : FileId} (found : p.file? file = some f) :
    ∃ literal, g.LiteralAt (byteLength (g.literalFront c)) literal ∧
      Generation.target p file c = .ok (literal.inRole .expression) := by
  obtain ⟨n, statements, hn⟩ := h.constant
  obtain ⟨d, literal, hliteral, constants, name, value⟩ := hn.exportedConstants
  have none : f.imports.flatMap (·.exportedConstants) = [] :=
    List.flatMap_eq_nil_iff.2 fun m hm => by
      rw [Node.exportedConstants, if_neg fun isConstant => ?_]
      rw [h.areImports m hm] at isConstant
      exact nomatch isConstant.1
  have isLiteral : literal.kind = .objectLiteralExpression := by
    obtain ⟨flags, ms, -, rfl⟩ := id hliteral
    rfl
  have constant : p.findConstant file c.targetConst = .ok d := by
    rw [Program.findConstant, Program.statements, found, Option.map_some, Option.getD_some, statements,
      List.flatMap_append, none, List.flatMap_singleton, constants, List.nil_append]
    simp [name]
  refine ⟨literal, hliteral, Generation.ofLookup_eq_ok.2 ?_⟩
  rw [Program.findLiteral, constant]
  exact value isLiteral

end Read
end GeneratedFile
end FactorySync
