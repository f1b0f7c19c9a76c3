import FactorySync.Proofs.Bindings

/-!
# Where names are mentioned

A `Mention` is a place of a file at which a name stands for something, with the way that leads there
from the top: the nodes around the place, outermost first, each with the child in which the way goes
on. Whether something in the file captures the name is a question about that way and the bindings
along it (`Mention.Captured`).

The walk through the references comes by the same places (`SourceFile.occurrences_findings`), but
answers the question by its scopes: it takes a name for bound exactly if a binding that is heeded
captures it, or one that does not reach the place is around it (`SourceFile.isBound_iff`). Hence the
free names of a file and those in use are told by its mentions alone (`SourceFile.mem_free`,
`SourceFile.uses_iff`).
-/

namespace FactorySync

structure Mention where
  usage : Usage
  /-- The name; of a dotted name the first part. -/
  name : String
  /-- The nodes around the place, outermost first, each with its child towards the place. -/
  trail : List (Node × Node) := []

namespace Mention

/-- The mention as seen from the node `n`, in the child `c` of which it is. -/
def under (n c : Node) (m : Mention) : Mention := { m with trail := (n, c) :: m.trail }

/-- The mention as seen from the outermost child on its trail. -/
def inner (m : Mention) : Mention := { m with trail := m.trail.tail }

/-- The scopes that the walk opens on its way to the mention, innermost first. -/
def scopes (m : Mention) : List Scope := (m.trail.map (·.1.scope)).reverse

end Mention

namespace Node

/-- The local names that an export declaration without a module lists. -/
def exportedLocals (n : Node) : List String :=
  if (n.child? .moduleSpecifier).isSome then []
  else
    ((n.childrenIn .exportClause).filter (·.kind == .namedExports)).flatMap fun clause =>
      (clause.childrenIn .elements).map fun item => item.specifiedName?.getD ""

mutual

/-- The mentions inside a node, in source order. -/
def mentions (n : Node) : List Mention :=
  match n with
  | { kind, children, .. } =>
    match kind with
    | .importDeclaration => []
    | .exportDeclaration => n.exportedLocals.map fun name => { usage := .exported, name }
    | .unsupportedStatement =>
      (n.childrenIn .identifiers).map fun c => { usage := .skipped, name := c.firstName }
    | _ => mentionsIn n children

/-- The mentions in some children of a node. -/
def mentionsIn (n : Node) : List Node → List Mention
  | [] => []
  | c :: cs =>
    let here : List Mention :=
      if c.kind = .identifier ∨ c.kind = .qualifiedName then
        (usageAt n.kind c.role).toList.map fun usage => { usage, name := c.firstName }
      else c.mentions
    here.map (·.under n c) ++ mentionsIn n cs

end

end Node

/-! ## The walk -/

/-- What the walk finds out about a place: the usage, the name, and whether a scope binds it. -/
def Occurrence.finding (o : Occurrence) : Usage × String × Bool := (o.usage, o.name, o.isBound)

/-- What the walk finds out about a mention when `outer` are the scopes around its trail. -/
def Mention.finding (outer : List Scope) (m : Mention) : Usage × String × Bool :=
  (m.usage, m.name, m.usage.bound (m.scopes ++ outer) m.name)

namespace Node

@[simp] theorem finding_occurrence (scopes : List Scope) (u : Usage) (n : Node) :
    (n.occurrence scopes u).finding = (u, n.firstName, u.bound scopes n.firstName) := rfl

theorem mem_mentionsIn {n : Node} {m : Mention} {cs : List Node} (h : m ∈ n.mentionsIn cs) :
    ∃ c ∈ cs, ∃ m', Mention.under n c m' = m := by
  induction cs with
  | nil => exact nomatch h
  | cons c cs ih =>
    rw [mentionsIn] at h
    rcases List.mem_append.1 h with h | h
    · obtain ⟨m', -, rfl⟩ := List.mem_map.1 h
      exact ⟨c, List.mem_cons_self, m', rfl⟩
    · obtain ⟨c', hc', found⟩ := ih h
      exact ⟨c', List.mem_cons_of_mem c hc', found⟩

/-- A node around a mention adds its scope. -/
theorem finding_inner {n : Node} {m : Mention} {cs : List Node} (h : m ∈ n.mentionsIn cs)
    (outer : List Scope) : m.finding outer = m.inner.finding (n.scope :: outer) := by
  obtain ⟨c, -, m', rfl⟩ := mem_mentionsIn h
  simp [Mention.finding, Mention.under, Mention.inner, Mention.scopes]

theorem exportOccurrences_findings (n : Node) (scopes : List Scope) :
    (n.exportOccurrences scopes).map Occurrence.finding =
      n.exportedLocals.map fun name => (.exported, name, Usage.exported.bound scopes name) := by
  unfold exportOccurrences exportedLocals
  split
  · rfl
  · simp [List.map_flatMap, Occurrence.finding, Function.comp_def]

theorem skippedOccurrences_findings (n : Node) :
    n.skippedOccurrences.map Occurrence.finding =
      (n.childrenIn .identifiers).map fun c => (.skipped, c.firstName, false) := by
  simp [skippedOccurrences, Usage.bound]

theorem mentions_eq {n : Node} (noImport : n.kind ≠ .importDeclaration)
    (noExport : n.kind ≠ .exportDeclaration) (noSkipped : n.kind ≠ .unsupportedStatement) :
    n.mentions = n.mentionsIn n.children := by
  obtain ⟨role, kind, span, flags, modifiers, detail, marks, lists, children⟩ := n
  rw [mentions.eq_def]
  dsimp only at noImport noExport noSkipped ⊢
  split
  · exact absurd rfl noImport
  · exact absurd rfl noExport
  · exact absurd rfl noSkipped
  · rfl

mutual

/-- The walk comes by the mentions inside a node, one after the other. -/
theorem occurrences_findings (n : Node) (scopes : List Scope) :
    (n.occurrences scopes).map Occurrence.finding = n.mentions.map (·.finding scopes) := by
  match n with
  | { role, kind, span, flags, modifiers, detail, marks, lists, children } =>
    have ih := occurrencesIn_findings
      { role, kind, span, flags, modifiers, detail, marks, lists, children } children
    rw [occurrences.eq_def]
    dsimp only at ih ⊢
    split
    · rw [mentions.eq_def]
      rfl
    · rw [mentions.eq_def]
      simp [exportOccurrences_findings, Mention.finding, Mention.scopes, Function.comp_def]
    · rw [mentions.eq_def]
      simp [skippedOccurrences_findings, Mention.finding, Function.comp_def, Usage.bound]
    · next noImport noExport noSkipped =>
      -- the scope of the node is open around its children, and on the trails of their mentions
      rw [mentions_eq noImport noExport noSkipped, ih]
      exact (List.map_congr_left fun m hm => finding_inner hm scopes).symm

theorem occurrencesIn_findings (n : Node) (cs : List Node) (scopes : List Scope) :
    (occurrencesIn n.kind scopes cs).map Occurrence.finding =
      (mentionsIn n cs).map (·.inner.finding scopes) := by
  match cs with
  | [] => rfl
  | c :: cs =>
    have ih := occurrencesIn_findings n cs scopes
    have ihc := occurrences_findings c scopes
    rw [occurrencesIn, mentionsIn, List.map_append, List.map_append, ih, List.map_map (g := _)]
    congr 1
    split
    · simp [Function.comp_def, Mention.finding, Mention.scopes, Mention.under, Mention.inner]
    · exact ihc

end

end Node

namespace SourceFile

variable {f : SourceFile} {x : String}

/-- The mentions in a file. The way to each leads from the file's tree through a statement. -/
def mentions (f : SourceFile) : List Mention := f.tree.mentionsIn f.statements

theorem occurrences_findings (isFile : f.tree.kind = .sourceFile) :
    f.occurrences.map Occurrence.finding =
      f.mentions.map (·.inner.finding [.ofStatements f.statements]) := by
  rw [occurrences, mentions, ← isFile, Node.occurrencesIn_findings]

end SourceFile

/-! ## What captures a name -/

namespace Mention

variable {f : SourceFile} {m : Mention}

/-- A binding of this kind makes the name mean something in the file itself. -/
def Captured (f : SourceFile) (m : Mention) (b : Binding) : Prop :=
  (∃ s ∈ m.trail.head?, b.reachesStatement s.2 = true ∧
    m.usage.Finds m.name (bindsOf f.statements b)) ∨
  ∃ s ∈ m.trail, b.reaches s.1 s.2 = true ∧ m.usage.Finds m.name (s.1.binds b)

/-- A binding of this kind stands around the mention and has its name, but does not reach it. -/
def Overreached (m : Mention) (b : Binding) : Prop :=
  ∃ s ∈ m.trail, b.reaches s.1 s.2 = false ∧ m.usage.Finds m.name (s.1.binds b)

instance (f : SourceFile) (m : Mention) (b : Binding) : Decidable (m.Captured f b) := by
  unfold Captured
  infer_instance

instance (m : Mention) (b : Binding) : Decidable (m.Overreached b) := by
  unfold Overreached
  infer_instance

/-- Nothing in the file captures the name: it stands for an import or for something global. -/
def IsFree (f : SourceFile) (m : Mention) : Prop := ∀ b, ¬ m.Captured f b

instance (f : SourceFile) (m : Mention) : Decidable (m.IsFree f) := by
  unfold IsFree
  infer_instance

/-- The mention is bound for the walk: a binding that is heeded is around it, whether it reaches
the mention or not. -/
def Heeded (f : SourceFile) (m : Mention) : Prop :=
  ∃ b : Binding, b.isHeeded = true ∧ (m.Captured f b ∨ m.Overreached b)

/-- The walk takes a free mention for bound only if a scope is too wide. -/
theorem IsFree.not_heeded (free : m.IsFree f) (narrow : ∀ b, ¬ m.Overreached b) :
    ¬ m.Heeded f := by
  rintro ⟨b, -, captured | overreached⟩
  · exact free b captured
  · exact narrow b overreached

/-- The walk takes a captured mention for free only if a binding has no scope. -/
theorem isFree_of_not_heeded (loose : ¬ m.Heeded f)
    (heeded : ∀ b : Binding, m.Captured f b → b.isHeeded = true) : m.IsFree f :=
  fun b captured => loose ⟨b, heeded b captured, .inl captured⟩

end Mention

theorem Usage.bound_append {u : Usage} {s t : List Scope} {x : String} :
    u.bound (s ++ t) x = true ↔ u.bound s x = true ∨ u.bound t x = true := by
  simp only [Usage.bound_iff, List.mem_append, or_and_right, exists_or]

theorem Node.binds_sourceFile {n : Node} (h : n.kind = .sourceFile) (b : Binding) :
    n.binds b = [] := by
  cases b <;> simp [binds, h, Kind.hasSignature]

/-- Of what the statements of a file bind, only the declarations are heeded. -/
theorem finds_bindsOf {b : Binding} {u : Usage} {x : String} {statements : List Node}
    (heeded : b.isHeeded = true) (found : u.Finds x (bindsOf statements b)) :
    u.Finds x (statements.flatMap Node.declared) := by
  cases b <;> simp_all [bindsOf, Binding.isHeeded]

namespace Mention

variable {f : SourceFile} {m : Mention}

theorem bound_scopes {u : Usage} {x : String} : u.bound m.scopes x = true ↔
    ∃ b : Binding, b.isHeeded = true ∧ ∃ s ∈ m.trail, u.Finds x (s.1.binds b) := by
  have step (s : Scope) : ((x ∈ s.values ∧ u.sees .value = true) ∨
      (x ∈ s.types ∧ u.sees .type = true)) ↔ u.bound [s] x = true := by
    rw [Usage.bound_iff]
    simp
  rw [Usage.bound_iff]
  simp only [step, scopes, List.mem_reverse, List.mem_map]
  constructor
  · rintro ⟨_, ⟨s, hs, rfl⟩, h⟩
    obtain ⟨b, heeded, found⟩ := (Node.mem_scope_iff s.1).1 h
    exact ⟨b, heeded, s, hs, found⟩
  · rintro ⟨b, heeded, s, hs, found⟩
    exact ⟨_, ⟨s, hs, rfl⟩, (Node.mem_scope_iff s.1).2 ⟨b, heeded, found⟩⟩

/-- The walk heeds the declarations of the file and, in the nodes on its way, every binding of a
kind that is heeded. -/
theorem heeded_iff (inside : m.trail ≠ []) : m.Heeded f ↔
    m.usage.Finds m.name (f.statements.flatMap Node.declared) ∨
      ∃ b : Binding, b.isHeeded = true ∧ ∃ s ∈ m.trail, m.usage.Finds m.name (s.1.binds b) := by
  constructor
  · rintro ⟨b, heeded, (⟨_, _, _, found⟩ | ⟨s, hs, _, found⟩) | ⟨s, hs, _, found⟩⟩
    · exact .inl (finds_bindsOf heeded found)
    · exact .inr ⟨b, heeded, s, hs, found⟩
    · exact .inr ⟨b, heeded, s, hs, found⟩
  · rintro (found | ⟨b, heeded, s, hs, found⟩)
    · exact ⟨.declaration, rfl, .inl (.inl ⟨_, List.head_mem_head? inside, rfl, found⟩)⟩
    · cases hr : b.reaches s.1 s.2 with
      | true => exact ⟨b, heeded, .inl (.inr ⟨s, hs, hr, found⟩)⟩
      | false => exact ⟨b, heeded, .inr ⟨s, hs, hr, found⟩⟩

end Mention

namespace SourceFile

variable {f : SourceFile} {m : Mention}

/-- A name is bound for the walk exactly if a binding that is heeded captures it or is around it
without reaching it. -/
theorem isBound_iff (isFile : f.tree.kind = .sourceFile) (h : m ∈ f.mentions) :
    m.usage.bound (m.inner.scopes ++ [.ofStatements f.statements]) m.name = true ↔
      m.Heeded f := by
  obtain ⟨c, -, m, rfl⟩ := Node.mem_mentionsIn h
  rw [Mention.heeded_iff (List.cons_ne_nil _ _), Usage.bound_append, or_comm, Mention.bound_scopes]
  refine or_congr ?_ ?_
  · rw [Usage.bound_iff, ← Scope.ofDeclared_iff]
    simp [Scope.ofStatements]
  · simp [Mention.under, Mention.inner, Node.binds_sourceFile isFile]

/-- What a skipped statement mentions is never bound. -/
theorem not_heeded_of_skipped (h : m.usage = .skipped) : ¬ m.Heeded f := by
  have none (ds : List Declared) : ¬ m.usage.Finds m.name ds := by
    rw [h]
    rintro ⟨d, -, -, hd⟩
    exact nomatch hd
  rintro ⟨b, -, (⟨_, _, _, found⟩ | ⟨_, _, _, found⟩) | ⟨_, _, _, found⟩⟩ <;> exact none _ found

/-- What the walk finds: each mention, and whether the name is bound for it there. -/
theorem exists_occurrence (isFile : f.tree.kind = .sourceFile) {P : Usage → String → Prop → Prop} :
    (∃ o ∈ f.occurrences, P o.usage o.name (o.isBound = true)) ↔
      ∃ m ∈ f.mentions, P m.usage m.name (m.Heeded f) := by
  have findings := occurrences_findings isFile
  -- the two lists have the same findings, so what holds of one of an occurrence holds of a mention
  have agree {o : Occurrence} {m : Mention} (hm : m ∈ f.mentions)
      (heq : m.inner.finding [.ofStatements f.statements] = o.finding) :
      P o.usage o.name (o.isBound = true) ↔ P m.usage m.name (m.Heeded f) := by
    obtain ⟨hu, rest⟩ := Prod.mk.inj heq
    obtain ⟨hx, hb⟩ := Prod.mk.inj rest
    rw [← propext (isBound_iff isFile hm), ← hu, ← hx, ← hb]
    rfl
  constructor
  · rintro ⟨o, ho, found⟩
    have hmem := List.mem_map_of_mem (f := Occurrence.finding) ho
    rw [findings] at hmem
    obtain ⟨m, hm, heq⟩ := List.mem_map.1 hmem
    exact ⟨m, hm, (agree hm heq).1 found⟩
  · rintro ⟨m, hm, found⟩
    have hmem := List.mem_map_of_mem (f := fun m => m.inner.finding [.ofStatements f.statements]) hm
    rw [← findings] at hmem
    obtain ⟨o, ho, heq⟩ := List.mem_map.1 hmem
    exact ⟨o, ho, (agree hm heq.symm).2 found⟩

variable {x : String}

/-- The free names of a file are those with a mention, not in a skipped statement, that the walk
does not take for bound. -/
theorem mem_free (isFile : f.tree.kind = .sourceFile) : x ∈ f.references.free ↔
    ∃ m ∈ f.mentions, m.usage ≠ .skipped ∧ m.name = x ∧ ¬ m.Heeded f := by
  rw [← exists_occurrence isFile (P := fun u y bound => u ≠ .skipped ∧ y = x ∧ ¬ bound)]
  simp only [references, List.mem_eraseDups, List.mem_map, List.mem_filter, Bool.and_eq_true,
    bne_iff_ne, Bool.not_eq_true', Bool.not_eq_true]
  grind

theorem mem_mentioned (isFile : f.tree.kind = .sourceFile) : x ∈ f.references.mentioned ↔
    ∃ m ∈ f.mentions, m.usage = .skipped ∧ m.name = x := by
  rw [← exists_occurrence isFile (P := fun u y _ => u = .skipped ∧ y = x)]
  simp only [references, List.mem_eraseDups, List.mem_map, List.mem_filter, beq_iff_eq, and_assoc]

/-- A name is in use if some mention of it is not taken for bound. -/
theorem uses_iff (isFile : f.tree.kind = .sourceFile) : f.references.uses x = true ↔
    ∃ m ∈ f.mentions, m.name = x ∧ ¬ m.Heeded f := by
  simp only [References.uses, Bool.or_eq_true, List.contains_iff_mem, mem_free isFile,
    mem_mentioned isFile]
  constructor
  · rintro (⟨m, hm, -, hx, free⟩ | ⟨m, hm, skipped, hx⟩)
    · exact ⟨m, hm, hx, free⟩
    · exact ⟨m, hm, hx, not_heeded_of_skipped skipped⟩
  · rintro ⟨m, hm, hx, free⟩
    by_cases skipped : m.usage = .skipped
    · exact .inr ⟨m, hm, skipped, hx⟩
    · exact .inl ⟨m, hm, skipped, hx, free⟩

end SourceFile

end FactorySync
