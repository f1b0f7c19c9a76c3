import FactorySync.Proofs.TypeTerms
import FactorySync.Reference.File

/-!
# What a tree means does not depend on where it stands

The outline of a tree (`Node.outline`) has no offsets, no flags and no marks. What a statement declares
and which names occur in it is told by the outline alone, but for the offsets of the occurrences
(`Node.occurrences_outline`). So files whose statements have one outline have the same references
(`SourceFile.references_congr`).
-/

namespace FactorySync

/-- The occurrence, wherever it is. -/
def Occurrence.unplaced (o : Occurrence) : Occurrence := { o with pos := 0 }

theorem Detail.unplaced_unplaced (d : Detail) : d.unplaced.unplaced = d.unplaced := by
  cases d <;> simp [Detail.unplaced, Function.comp_def]

namespace Node

mutual

/-- The tree without offsets, flags and marks. -/
def outline : Node → Node
  | { role, kind, modifiers, detail, lists, children, .. } =>
    { role, kind, modifiers, lists
      span := .empty 0
      detail := detail.unplaced
      children := outlines children }

def outlines : List Node → List Node
  | [] => []
  | n :: ns => n.outline :: outlines ns

end

theorem outlines_eq (ns : List Node) : outlines ns = ns.map (·.outline) := by
  induction ns with
  | nil => rfl
  | cons n ns ih => rw [outlines, ih, List.map_cons]

theorem outline_mk (role : Role) (kind : Kind) (span : Span) (flags : NodeFlags)
    (modifiers : Modifiers) (detail : Detail) (marks : List Mark) (lists : List Role)
    (children : List Node) :
    outline { role, kind, span, flags, modifiers, detail, marks, lists, children } =
      { role, kind, modifiers, lists
        span := .empty 0
        detail := detail.unplaced
        children := children.map (·.outline) } := by
  rw [outline, outlines_eq]

variable {n : Node}

@[simp] theorem outline_kind (n : Node) : n.outline.kind = n.kind := by cases n; rw [outline_mk]

@[simp] theorem outline_role (n : Node) : n.outline.role = n.role := by cases n; rw [outline_mk]

@[simp] theorem outline_detail (n : Node) : n.outline.detail = n.detail.unplaced := by
  cases n; rw [outline_mk]

@[simp] theorem outline_span (n : Node) : n.outline.span = .empty 0 := by cases n; rw [outline_mk]

@[simp] theorem outline_children (n : Node) : n.outline.children = n.children.map (·.outline) := by
  cases n; rw [outline_mk]

theorem outline_inRole (n : Node) (role : Role) :
    (n.inRole role).outline = n.outline.inRole role := by
  cases n
  rw [inRole, outline_mk, outline_mk, inRole]

mutual

/-- The outline has even less in it than the tree without places. -/
theorem outline_unplaced (n : Node) : n.unplaced.outline = n.outline := by
  match n with
  | { role, kind, span, flags, modifiers, detail, marks, lists, children } =>
    rw [unplaced_mk, outline_mk, outline_mk, Detail.unplaced_unplaced, outlines_unplaced children]

theorem outlines_unplaced (ns : List Node) :
    (ns.map (·.unplaced)).map (·.outline) = ns.map (·.outline) := by
  match ns with
  | [] => rfl
  | n :: ns =>
    rw [List.map_cons, List.map_cons, List.map_cons, outline_unplaced n, outlines_unplaced ns]

end

theorem outline_of_unplaced {m : Node} (h : n.unplaced = m) : n.outline = m.outline := by
  rw [← h, outline_unplaced]

/-! ## Children and names -/

theorem childrenIn_outline (n : Node) (role : Role) :
    n.outline.childrenIn role = (n.childrenIn role).map (·.outline) := by
  simp [childrenIn, List.filter_map, Function.comp_def]

theorem child?_outline (n : Node) (role : Role) :
    n.outline.child? role = (n.child? role).map (·.outline) := by
  have role (c : Node) : (c.outline.role == role) = (c.role == role) := by rw [outline_role]
  rw [child?, child?, outline_children, List.find?_map]
  exact congrArg (Option.map _) (congrArg (List.find? · n.children) (funext role))

theorem identifierName?_outline (n : Node) : n.outline.identifierName? = n.identifierName? := by
  rw [identifierName?, outline_detail, identifierName?]
  cases n.detail <;> rfl

theorem propertyText?_outline (n : Node) : n.outline.propertyText? = n.propertyText? := by
  rw [propertyText?, outline_detail, propertyText?]
  cases n.detail <;> rfl

theorem nameIn?_outline (n : Node) (role : Role) : n.outline.nameIn? role = n.nameIn? role := by
  rw [nameIn?, child?_outline, nameIn?]
  cases n.child? role with
  | none => rfl
  | some m => exact identifierName?_outline m

theorem specifiedName?_outline (n : Node) : n.outline.specifiedName? = n.specifiedName? := by
  rw [specifiedName?, nameIn?_outline, nameIn?_outline, specifiedName?]

theorem memberName?_outline (n : Node) : n.outline.memberName? = n.memberName? := by
  have name : (n.outline.child? .name).bind propertyText? = (n.child? .name).bind propertyText? := by
    rw [child?_outline]
    cases n.child? .name with
    | none => rfl
    | some m => exact propertyText?_outline m
  rw [memberName?, outline_kind, name, memberName?]

mutual

theorem firstName_outline (n : Node) : n.outline.firstName = n.firstName := by
  match n with
  | { role, kind, span, flags, modifiers, detail, marks, lists, children } =>
    rw [outline_mk, firstName.eq_def, firstName.eq_def]
    dsimp only
    rw [firstNameOf_outline children]
    cases detail <;> rfl

theorem firstNameOf_outline (ns : List Node) :
    firstNameOf (ns.map (·.outline)) = firstNameOf ns := by
  match ns with
  | [] => rfl
  | n :: ns => exact firstName_outline n

end

theorem lastName_outline (n : Node) : n.outline.lastName = n.lastName := by
  rw [lastName, identifierName?_outline, nameIn?_outline, lastName]

mutual

theorem boundNames_outline (n : Node) : n.outline.boundNames = n.boundNames := by
  match n with
  | { role, kind, span, flags, modifiers, detail, marks, lists, children } =>
    rw [outline_mk, boundNames.eq_def, boundNames.eq_def]
    dsimp only
    rw [boundNamesIn_outline .elements children, boundNamesIn_outline .name children]
    cases detail with
    | separators => cases kind <;> rfl
    | _ => rfl

theorem boundNamesIn_outline (role : Role) (ns : List Node) :
    boundNamesIn role (ns.map (·.outline)) = boundNamesIn role ns := by
  match ns with
  | [] => rfl
  | n :: ns =>
    rw [List.map_cons, boundNamesIn, boundNamesIn, outline_role, boundNames_outline n,
      boundNamesIn_outline role ns]

end

theorem namesOf_outline (ns : List Node) (role : Role) :
    (ns.map (·.outline)).filterMap (·.nameIn? role) = ns.filterMap (·.nameIn? role) := by
  rw [List.filterMap_map]
  exact congrArg (List.filterMap · ns) (funext fun n => nameIn?_outline n role)

mutual

theorem inferredNames_outline (n : Node) : n.outline.inferredNames = n.inferredNames := by
  match n with
  | { role, kind, span, flags, modifiers, detail, marks, lists, children } =>
    have own : ((children.map (·.outline)).filter (·.role = .typeParameter)).filterMap
        (·.nameIn? .name) = (children.filter (·.role = .typeParameter)).filterMap
          (·.nameIn? .name) := by
      rw [List.filter_map, namesOf_outline]
      simp [Function.comp_def]
    rw [outline_mk, inferredNames, inferredNames, inferredNamesIn_outline children, own]

theorem inferredNamesIn_outline (ns : List Node) :
    inferredNamesIn (ns.map (·.outline)) = inferredNamesIn ns := by
  match ns with
  | [] => rfl
  | n :: ns =>
    rw [List.map_cons, inferredNamesIn, inferredNamesIn, inferredNames_outline n,
      inferredNamesIn_outline ns]

end

/-! ## Declarations and scopes -/

theorem flatMap_outline {α : Type} {f : Node → List α} (same : ∀ n : Node, f n.outline = f n)
    (ns : List Node) : (ns.map (·.outline)).flatMap f = ns.flatMap f := by
  rw [List.flatMap_map]
  exact List.flatMap_congr fun n _ => same n

theorem declaredAs_outline (n : Node) (meaning : Meaning) :
    n.outline.declaredAs meaning = n.declaredAs meaning := by
  rw [declaredAs, nameIn?_outline, declaredAs]

theorem declared_outline (n : Node) : n.outline.declared = n.declared := by
  have names (d : Node) : boundNamesIn .name d.outline.children = boundNamesIn .name d.children := by
    rw [outline_children, boundNamesIn_outline]
  have constants : (n.outline.childrenIn .declarationList).flatMap (·.childrenIn .declarations) =
      ((n.childrenIn .declarationList).flatMap (·.childrenIn .declarations)).map (·.outline) := by
    rw [childrenIn_outline, List.flatMap_map, List.map_flatMap]
    exact List.flatMap_congr fun list _ => childrenIn_outline list _
  have bound : ((n.outline.childrenIn .declarationList).flatMap
      (·.childrenIn .declarations)).flatMap (fun d => boundNamesIn .name d.children) =
        ((n.childrenIn .declarationList).flatMap (·.childrenIn .declarations)).flatMap fun d =>
          boundNamesIn .name d.children := by
    rw [constants, flatMap_outline names]
  unfold declared
  dsimp only
  rw [outline_kind, declaredAs_outline, declaredAs_outline, declaredAs_outline, bound]

theorem ofStatements_outline (ns : List Node) :
    Scope.ofStatements (ns.map (·.outline)) = Scope.ofStatements ns := by
  rw [Scope.ofStatements, flatMap_outline declared_outline, Scope.ofStatements]

theorem scope_outline (n : Node) : n.outline.scope = n.scope := by
  have parameters : n.outline.parameterNames = n.parameterNames := by
    rw [parameterNames, childrenIn_outline, parameterNames]
    exact flatMap_outline (fun d => by rw [outline_children, boundNamesIn_outline]) _
  have types : n.outline.typeParameterNames = n.typeParameterNames := by
    rw [typeParameterNames, childrenIn_outline, namesOf_outline, typeParameterNames]
  have signature : n.outline.signatureScope = n.signatureScope := by
    rw [signatureScope, parameters, types, signatureScope]
  have inferred : (n.outline.childrenIn .extendsType).flatMap inferredNames =
      (n.childrenIn .extendsType).flatMap inferredNames := by
    rw [childrenIn_outline, flatMap_outline inferredNames_outline]
  rw [scope, scope, outline_kind, signature, types, inferred, nameIn?_outline,
    childrenIn_outline n .statements, ofStatements_outline, childrenIn_outline n .typeParameter,
    namesOf_outline]

/-! ## Occurrences -/

theorem occurrence_outline (scopes : List Scope) (usage : Usage) (n : Node) :
    n.outline.occurrence scopes usage = (n.occurrence scopes usage).unplaced := by
  simp [occurrence, Occurrence.unplaced, firstName_outline, lastName_outline, Span.empty]

theorem exportOccurrences_outline (scopes : List Scope) (n : Node) :
    n.outline.exportOccurrences scopes = (n.exportOccurrences scopes).map (·.unplaced) := by
  have items (clause : Node) :
      (clause.outline.childrenIn .elements).map (fun item : Node =>
        (⟨.exported, item.specifiedName?.getD "", item.specifiedName?.getD "", item.span.start,
          Usage.exported.bound scopes (item.specifiedName?.getD "")⟩ : Occurrence)) =
      ((clause.childrenIn .elements).map fun item : Node =>
        (⟨.exported, item.specifiedName?.getD "", item.specifiedName?.getD "", item.span.start,
          Usage.exported.bound scopes (item.specifiedName?.getD "")⟩ : Occurrence)).map
            (·.unplaced) := by
    rw [childrenIn_outline, List.map_map, List.map_map]
    refine List.map_congr_left fun item _ => ?_
    simp [Occurrence.unplaced, specifiedName?_outline, Span.empty]
  unfold exportOccurrences
  rw [child?_outline, Option.isSome_map]
  split
  · rfl
  · rw [childrenIn_outline, List.filter_map, List.flatMap_map, List.map_flatMap]
    simp only [Function.comp_def, outline_kind]
    exact List.flatMap_congr fun clause _ => items clause

theorem skippedOccurrences_outline (n : Node) :
    n.outline.skippedOccurrences = n.skippedOccurrences.map (·.unplaced) := by
  rw [skippedOccurrences, childrenIn_outline, List.map_map, skippedOccurrences, List.map_map]
  exact List.map_congr_left fun m _ => occurrence_outline [] .skipped m

mutual

/-- The outline tells all occurrences but their offsets. -/
theorem occurrences_outline (scopes : List Scope) (n : Node) :
    n.outline.occurrences scopes = (n.occurrences scopes).map (·.unplaced) := by
  match n with
  | { role, kind, span, flags, modifiers, detail, marks, lists, children } =>
    have exported := exportOccurrences_outline scopes
      { role, kind, span, flags, modifiers, detail, marks, lists, children }
    have skipped := skippedOccurrences_outline
      { role, kind, span, flags, modifiers, detail, marks, lists, children }
    have scope := scope_outline { role, kind, span, flags, modifiers, detail, marks, lists, children }
    rw [outline_mk] at exported skipped scope ⊢
    rw [occurrences.eq_def, occurrences.eq_def]
    dsimp only
    split
    · rfl
    · exact exported
    · exact skipped
    · rw [scope]
      exact occurrencesIn_outline kind _ children

theorem occurrencesIn_outline (parent : Kind) (scopes : List Scope) (ns : List Node) :
    occurrencesIn parent scopes (ns.map (·.outline)) =
      (occurrencesIn parent scopes ns).map (·.unplaced) := by
  match ns with
  | [] => rfl
  | n :: ns =>
    rw [List.map_cons, occurrencesIn, occurrencesIn, outline_kind, outline_role, List.map_append,
      occurrencesIn_outline parent scopes ns, occurrences_outline scopes n]
    split
    · simp [occurrence_outline]
    · rfl

end

theorem occurrencesIn_append (parent : Kind) (scopes : List Scope) (ns ms : List Node) :
    occurrencesIn parent scopes (ns ++ ms) =
      occurrencesIn parent scopes ns ++ occurrencesIn parent scopes ms := by
  induction ns with
  | nil => rfl
  | cons n ns ih => rw [List.cons_append, occurrencesIn, ih, occurrencesIn, List.append_assoc]

/-- Nothing occurs in imports. -/
theorem occurrencesIn_imports {parent : Kind} {scopes : List Scope} {ns : List Node}
    (imports : ∀ n ∈ ns, n.kind = .importDeclaration) : occurrencesIn parent scopes ns = [] := by
  induction ns with
  | nil => rfl
  | cons n ns ih =>
    obtain ⟨first, others⟩ := List.forall_mem_cons.1 imports
    rw [occurrencesIn, ih others, List.append_nil, if_neg (by simp [first])]
    cases n
    cases first
    rw [occurrences]

theorem ofStatements_imports {ns ms : List Node}
    (imports : ∀ n ∈ ns, n.kind = .importDeclaration) :
    Scope.ofStatements (ns ++ ms) = Scope.ofStatements ms := by
  have none : ns.flatMap declared = [] := List.flatMap_eq_nil_iff.2 fun n hn => by
    rw [declared, imports n hn]
  rw [Scope.ofStatements, List.flatMap_append, none, List.nil_append, Scope.ofStatements]

end Node

namespace SourceFile

variable {f f' : SourceFile} {imports imports' rest rest' : List Node}

theorem occurrences_behind (statements : f.statements = imports ++ rest)
    (areImports : ∀ n ∈ imports, n.kind = .importDeclaration) :
    f.occurrences = Node.occurrencesIn .sourceFile [.ofStatements rest] rest := by
  rw [occurrences, statements, Node.ofStatements_imports areImports, Node.occurrencesIn_append,
    Node.occurrencesIn_imports areImports, List.nil_append]

/-- What a file reads without declaring it does not depend on its imports, and of the statements
behind them only on their outline. -/
theorem references_congr (statements : f.statements = imports ++ rest)
    (statements' : f'.statements = imports' ++ rest')
    (areImports : ∀ n ∈ imports, n.kind = .importDeclaration)
    (areImports' : ∀ n ∈ imports', n.kind = .importDeclaration)
    (same : rest.map (·.outline) = rest'.map (·.outline)) : f.references = f'.references := by
  have unplaced : f.occurrences.map (·.unplaced) = f'.occurrences.map (·.unplaced) := by
    rw [occurrences_behind statements areImports, occurrences_behind statements' areImports',
      ← Node.occurrencesIn_outline, ← Node.occurrencesIn_outline, same,
      ← Node.ofStatements_outline rest, same, Node.ofStatements_outline]
  have free (os : List Occurrence) :
      (os.filter fun o => o.usage != .skipped && !o.isBound).map (·.name) =
        ((os.map (·.unplaced)).filter fun o => o.usage != .skipped && !o.isBound).map (·.name) := by
    rw [List.filter_map, List.map_map]
    rfl
  have mentioned (os : List Occurrence) : (os.filter (·.usage == .skipped)).map (·.name) =
      ((os.map (·.unplaced)).filter (·.usage == .skipped)).map (·.name) := by
    rw [List.filter_map, List.map_map]
    rfl
  rw [references, references, free, mentioned, free f'.occurrences, mentioned f'.occurrences,
    unplaced]

end SourceFile
end FactorySync
