import FactorySync.Reference.File

/-!
# What binds a name where

The rules of the language for names, told apart by the kind of `Binding`: which names a node of the
tree, or the file as a whole, binds (`Node.binds`, `bindsOf`), and for which of its children
(`Binding.reaches`). A name that a place mentions is captured by the bindings around the place that
reach it.

The scopes of the walk through a file follow simpler rules: a scope is open for all that lies inside
its node, and some kinds of binding make no scope at all (`Binding.isHeeded`). Apart from that the
two agree: the scope of a node consists of its bindings of the kinds that are heeded
(`Node.mem_scope_iff`).
-/

namespace FactorySync

/-- The ways in which a name comes to mean something inside a node or file. -/
inductive Binding where
  /-- Declared by a statement of the block or file. -/
  | declaration
  | parameter
  | typeParameter
  /-- The name of a function expression. -/
  | functionName
  /-- The key of a mapped type. -/
  | key
  /-- Inferred in the `extends` clause of a conditional type. -/
  | inferred
  /-- Inferred in the `extends` clause of another conditional type, which is itself part of the
  `extends` clause. -/
  | innerInferred
  /-- Declared in a clause of a `switch`. -/
  | clause
  /-- Declared by a `var` further inside, which counts for the whole function or file. -/
  | hoisted
  /-- A member of an enum. -/
  | enumMember
  /-- Declared by a statement of the file, with whatever meaning, where `export default` names it. -/
  | defaultExport
  deriving Repr, DecidableEq

namespace Binding

/-- The kinds of binding. -/
def all : List Binding :=
  [.declaration, .parameter, .typeParameter, .functionName, .key, .inferred, .innerInferred,
    .clause, .hoisted, .enumMember, .defaultExport]

theorem mem_all (b : Binding) : b ∈ all := by
  cases b <;> decide

instance (P : Binding → Prop) [DecidablePred P] : Decidable (∀ b, P b) :=
  decidable_of_iff (∀ b ∈ all, P b) ⟨fun h b => h b b.mem_all, fun h b _ => h b⟩

end Binding

/-- Whether a usage asks for names with a meaning. -/
def Usage.sees (u : Usage) (m : Meaning) : Bool :=
  match u with
  | .value | .query => m.isValue
  | .type => m.isType
  | .exported => true
  | .skipped => false

/-- A usage of a name asks for one of the declarations. -/
def Usage.Finds (u : Usage) (name : String) (ds : List Declared) : Prop :=
  ∃ d ∈ ds, d.name = name ∧ u.sees d.meaning = true

instance (u : Usage) (name : String) (ds : List Declared) : Decidable (u.Finds name ds) := by
  unfold Usage.Finds
  infer_instance

/-- What has parameters and type parameters. -/
def Kind.hasSignature : Kind → Bool
  | .functionDeclaration | .functionExpression | .arrowFunction | .methodDeclaration | .getAccessor
  | .setAccessor | .functionType | .constructorType | .methodSignature | .callSignature
  | .constructSignature => true
  | _ => false

namespace Node

/-! ## Names that are bound further inside -/

mutual

/-- The names that a `var` binds somewhere in a statement, functions in it left out. -/
def varNames (n : Node) : List String :=
  match n with
  | { kind, children, .. } =>
    match kind with
    | .variableStatement =>
      let lists := (n.childrenIn .declarationList).filter fun l => !l.flags.isLet && !l.flags.isConst
      (lists.flatMap (·.childrenIn .declarations)).flatMap fun d => boundNamesIn .name d.children
    | .block | .ifStatement | .switchStatement | .caseClause | .defaultClause =>
      varNamesIn children
    | _ => []

def varNamesIn : List Node → List String
  | [] => []
  | n :: ns => n.varNames ++ varNamesIn ns

end

mutual

/-- The type parameters that `infer` introduces in a tree for a conditional type around it. Those
in the `extends` clause of a conditional type within the tree are its own. -/
def ownInferredNames : Node → List String
  | { kind, children, .. } =>
    let names := ownInferredNamesIn kind children
    if kind = .inferType then
      (children.filter (·.role = .typeParameter)).filterMap (·.nameIn? .name) ++ names
    else names

def ownInferredNamesIn (parent : Kind) : List Node → List String
  | [] => []
  | n :: ns =>
    (if parent = .conditionalType ∧ n.role = .extendsType then [] else n.ownInferredNames) ++
      ownInferredNamesIn parent ns

end

mutual

/-- The type parameters that `infer` introduces in the `extends` clauses of the conditional types
within a tree. -/
def innerInferredNames : Node → List String
  | { kind, children, .. } => innerInferredNamesIn kind children

def innerInferredNamesIn (parent : Kind) : List Node → List String
  | [] => []
  | n :: ns =>
    (if parent = .conditionalType ∧ n.role = .extendsType then n.inferredNames
      else n.innerInferredNames) ++ innerInferredNamesIn parent ns

end

/-! ## The bindings of a node -/

/-- What a node binds, by kind. -/
def binds (n : Node) : Binding → List Declared
  | .declaration =>
    if n.kind = .block then (n.childrenIn .statements).flatMap declared else []
  | .parameter => if n.kind.hasSignature then n.parameterNames.map (⟨·, .value⟩) else []
  | .typeParameter =>
    if n.kind.hasSignature ∨ n.kind = .interfaceDeclaration ∨ n.kind = .typeAliasDeclaration then
      n.typeParameterNames.map (⟨·, .type⟩)
    else []
  | .functionName =>
    if n.kind = .functionExpression then (n.nameIn? .name).toList.map (⟨·, .value⟩) else []
  | .key =>
    if n.kind = .mappedType then
      ((n.childrenIn .typeParameter).filterMap (·.nameIn? .name)).map (⟨·, .type⟩)
    else []
  | .inferred =>
    if n.kind = .conditionalType then
      ((n.childrenIn .extendsType).flatMap ownInferredNames).map (⟨·, .type⟩)
    else []
  | .innerInferred =>
    if n.kind = .conditionalType then
      ((n.childrenIn .extendsType).flatMap innerInferredNames).map (⟨·, .type⟩)
    else []
  | .clause =>
    if n.kind = .switchStatement then
      ((n.childrenIn .clauses).flatMap (·.childrenIn .statements)).flatMap declared
    else []
  | .hoisted =>
    if n.kind.hasSignature then ((n.childrenIn .body).flatMap varNames).map (⟨·, .value⟩) else []
  | .enumMember =>
    if n.kind = .enumDeclaration then
      ((n.childrenIn .members).filterMap fun m => (m.child? .name).bind propertyText?).map
        (⟨·, .both⟩)
    else []
  | .defaultExport => []

end Node

namespace Binding

/-- Whether a binding of the node `n` holds for what lies in its child `c`. -/
def reaches (b : Binding) (n c : Node) : Bool :=
  match b with
  | .declaration | .functionName | .key => true
  | .parameter => c.role == .parameters || c.role == .returnType || c.role == .body
  -- a computed name stands outside the signature
  | .typeParameter => c.role != .name
  | .inferred => c.role == .extendsType || c.role == .trueType
  -- it holds for a part of the conditional type that infers it only
  | .innerInferred => false
  | .clause => c.role == .clauses
  | .hoisted => n.kind.hasSignature && c.role == .body
  | .enumMember => c.role == .members
  | .defaultExport => false

/-- Whether a binding of the file holds for what lies in its statement `c`. -/
def reachesStatement (b : Binding) (c : Node) : Bool :=
  match b with
  | .declaration | .hoisted => true
  | .defaultExport => c.kind == .exportAssignment && (c.nameIn? .expression).isSome
  | _ => false

/-- Whether the scopes of the walk heed bindings of this kind. -/
def isHeeded : Binding → Bool
  | .declaration | .parameter | .typeParameter | .functionName | .key | .inferred
  | .innerInferred => true
  | .clause | .hoisted | .enumMember | .defaultExport => false

end Binding

/-- What the statements of a file bind, by kind. -/
def bindsOf (statements : List Node) : Binding → List Declared
  | .declaration => statements.flatMap Node.declared
  | .hoisted => (statements.flatMap Node.varNames).map (⟨·, .value⟩)
  | .defaultExport => (statements.flatMap Node.declared).map fun d => ⟨d.name, .both⟩
  | _ => []

/-! ## Scopes -/

section Scopes

variable {x : String} {u : Usage}

theorem Usage.bound_iff {scopes : List Scope} : u.bound scopes x = true ↔
    ∃ s ∈ scopes, (x ∈ s.values ∧ u.sees .value = true) ∨ (x ∈ s.types ∧ u.sees .type = true) := by
  cases u <;> simp [Usage.bound, Usage.sees, Meaning.isValue, Meaning.isType, and_or_left]

/-- A usage that asks for names with the meaning of a declaration asks for values or types. -/
theorem Usage.sees_iff (u : Usage) (m : Meaning) : u.sees m = true ↔
    (m.isValue = true ∧ u.sees .value = true) ∨ (m.isType = true ∧ u.sees .type = true) := by
  cases u <;> cases m <;> decide

@[simp] theorem Usage.finds_nil : ¬ u.Finds x [] := by simp [Usage.Finds]

@[simp] theorem Usage.finds_named {m : Meaning} {names : List String} :
    u.Finds x (names.map (⟨·, m⟩)) ↔ x ∈ names ∧ u.sees m = true := by
  simp only [Usage.Finds, List.mem_map]
  constructor
  · rintro ⟨d, ⟨y, hy, rfl⟩, rfl, hu⟩
    exact ⟨hy, hu⟩
  · rintro ⟨hx, hu⟩
    exact ⟨_, ⟨x, hx, rfl⟩, rfl, hu⟩

theorem Scope.ofDeclared_iff (ds : List Declared) :
    (x ∈ (Scope.ofDeclared ds).values ∧ u.sees .value = true) ∨
        (x ∈ (Scope.ofDeclared ds).types ∧ u.sees .type = true) ↔ u.Finds x ds := by
  constructor
  · rintro (⟨h, hu⟩ | ⟨h, hu⟩) <;>
      obtain ⟨d, hd, rfl⟩ := List.mem_map.1 h <;>
      obtain ⟨hmem, hm⟩ := List.mem_filter.1 hd
    · exact ⟨d, hmem, rfl, (u.sees_iff _).2 (.inl ⟨hm, hu⟩)⟩
    · exact ⟨d, hmem, rfl, (u.sees_iff _).2 (.inr ⟨hm, hu⟩)⟩
  · rintro ⟨d, hmem, rfl, hu⟩
    rcases (u.sees_iff _).1 hu with ⟨hm, hu⟩ | ⟨hm, hu⟩
    · exact .inl ⟨List.mem_map.2 ⟨d, List.mem_filter.2 ⟨hmem, hm⟩, rfl⟩, hu⟩
    · exact .inr ⟨List.mem_map.2 ⟨d, List.mem_filter.2 ⟨hmem, hm⟩, rfl⟩, hu⟩

mutual

/-- Every inferred name is inferred for a conditional type around the tree, or for one in it. -/
theorem Node.mem_inferredNames (n : Node) :
    x ∈ n.inferredNames ↔ x ∈ n.ownInferredNames ∨ x ∈ n.innerInferredNames := by
  match n with
  | { role, kind, span, flags, modifiers, detail, marks, lists, children } =>
    have ih := mem_inferredNamesIn kind children
    simp only [inferredNames, ownInferredNames, innerInferredNames]
    split <;> simp only [List.mem_append, ih, or_assoc]

theorem Node.mem_inferredNamesIn (parent : Kind) (ns : List Node) :
    x ∈ Node.inferredNamesIn ns ↔
      x ∈ Node.ownInferredNamesIn parent ns ∨ x ∈ Node.innerInferredNamesIn parent ns := by
  match ns with
  | [] => simp [Node.inferredNamesIn, Node.ownInferredNamesIn, Node.innerInferredNamesIn]
  | n :: ns =>
    have ih := Node.mem_inferredNamesIn parent ns
    have ihn := Node.mem_inferredNames n
    simp only [Node.inferredNamesIn, Node.ownInferredNamesIn, Node.innerInferredNamesIn,
      List.mem_append, ih]
    split
    · simp only [List.not_mem_nil, false_or]
      grind
    · rw [ihn]
      grind

end

theorem Binding.exists_heeded {P : Binding → Prop} : (∃ b, b.isHeeded = true ∧ P b) ↔
    P .declaration ∨ P .parameter ∨ P .typeParameter ∨ P .functionName ∨ P .key ∨ P .inferred ∨
      P .innerInferred := by
  constructor
  · rintro ⟨b, heeded, h⟩
    cases b <;> simp_all [isHeeded]
  · rintro (h | h | h | h | h | h | h) <;> exact ⟨_, rfl, h⟩

/-- A scope of the walk consists of the bindings of its node that are heeded. -/
theorem Node.mem_scope_iff (n : Node) :
    u.bound [n.scope] x = true ↔ ∃ b, b.isHeeded = true ∧ u.Finds x (n.binds b) := by
  rw [Usage.bound_iff, Binding.exists_heeded]
  simp only [List.mem_singleton, exists_eq_left]
  unfold scope
  split
  case h_12 hk =>
    -- the name of a function expression is a value beside its parameters
    simp [binds, hk, Kind.hasSignature, signatureScope, or_and_right, or_comm, or_left_comm]
  case h_16 hk =>
    have inferred : x ∈ (n.childrenIn .extendsType).flatMap inferredNames ↔
        x ∈ (n.childrenIn .extendsType).flatMap ownInferredNames ∨
          x ∈ (n.childrenIn .extendsType).flatMap innerInferredNames := by
      simp only [List.mem_flatMap, mem_inferredNames, and_or_left, exists_or]
    simp [binds, hk, Kind.hasSignature, Scope.ofTypes, inferred, or_and_right]
  case h_17 =>
    have none : n.kind.hasSignature = false := by
      unfold Kind.hasSignature
      split <;> simp_all
    simp_all [binds]
  all_goals
    next hk =>
      simp [binds, hk, Kind.hasSignature, signatureScope, Scope.ofTypes, Scope.ofStatements,
        Scope.ofDeclared_iff]

end Scopes

end FactorySync
