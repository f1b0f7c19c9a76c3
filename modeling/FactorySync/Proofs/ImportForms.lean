import FactorySync.Import.Basic
import FactorySync.Proofs.Grouping

/-!
# Forms of imports

Which imports a declaration can express (`Import.Proper`): names where names are due, a namespace or
names in braces but not both, and none of the two readings of `type` that the grammar gives to other
forms, `type as` in braces and `import type from`. Every declaration that is read and lacks nothing
expresses such an import (`Parser.importDeclaration_proper`).
-/

namespace FactorySync

open Parse

/-! ## Proper imports -/

/-- What an item in the braces of an import can be. The word behind `type` is not `as`, because
`type as` in braces renames `type`. -/
structure ImportItem.Proper (i : ImportItem) : Prop where
  exported : IsWord i.exported
  renamed : ∀ x ∈ i.renamed, IsName x
  notAs : i.isTypeOnly = true → i.exported ≠ "as"

/-- What an import declaration can express. -/
structure Import.Proper (i : Import) : Prop where
  defaultName : ∀ x ∈ i.defaultName, IsName x
  namespaceName : ∀ x ∈ i.namespaceName, IsName x
  items : ∀ item ∈ i.items, item.Proper
  single : i.namespaceName.isSome = true → i.items = []
  /-- A type import of `from` binds nothing else, because `type` is a default name in front of
  a `from` that no other `from` follows. -/
  notFrom : i.isTypeOnly = true → i.defaultName = some "from" →
    i.namespaceName = none ∧ i.items = []

namespace Node

variable {n c : Node}

/-- Nothing in the node was put in where the source has nothing. -/
def Complete (n : Node) : Prop := ∀ m, n.Contains m → m.flags.missing = false

theorem Complete.present (h : n.Complete) : n.flags.missing = false := h n (.self n)

theorem Complete.child (h : n.Complete) (mem : c ∈ n.children) : c.Complete :=
  fun m inner => h m (.child mem inner)

theorem Complete.contained {m : Node} (h : n.Complete) (inner : n.Contains m) : m.Complete := by
  induction inner with
  | self => exact h
  | child mem _ ih => exact ih (h.child mem)

theorem Complete.ofRole {role : Role} (h : (n.inRole role).Complete) : n.Complete := by
  intro m inner
  cases inner with
  | self => exact h.present
  | child mem inner => exact h m (.child (n := n.inRole role) mem inner)

/-- The node has a name of this sort, unless it was put in where a name is missing. -/
def Names (P : String → Prop) (n : Node) : Prop :=
  n.flags.missing = true ∨ ∃ x, n.identifierName? = some x ∧ P x

theorem Names.name {P : String → Prop} (h : n.Names P) (present : n.flags.missing = false) {x : String}
    (name : n.identifierName? = some x) : P x := by
  obtain missing | ⟨y, hy, hP⟩ := h
  · rw [present] at missing
    cases missing
  · obtain rfl := Option.some_inj.1 (name.symm.trans hy)
    exact hP

/-- The node stands for an item of an import, unless something is missing in it. -/
def IsItem (n : Node) : Prop := n.Complete → (ImportItem.ofNode n).Proper

/-- What an import binds beside a default name. -/
inductive AreBindings : List Node → Prop
  | nothing : AreBindings []
  | namespace {n name : Node} (kind : n.kind = .namespaceImport)
    (children : n.children = [name.inRole .name]) (names : name.Names IsName) :
    AreBindings [n.inRole .namedBindings]
  | items {n : Node} {items : List Node} (kind : n.kind = .namedImports)
    (children : n.children = items.map (·.inRole .elements)) (areItems : ∀ i ∈ items, i.IsItem) :
    AreBindings [n.inRole .namedBindings]

/-- What an import clause consists of. -/
inductive IsClause (n : Node) : Prop
  | unnamed {isTypeOnly : Bool} {bindings : List Node} (children : n.children = bindings)
    (detail : n.detail = .typeOnly isTypeOnly) (areBindings : AreBindings bindings)
  | named {isTypeOnly : Bool} {name : Node} {bindings : List Node}
    (children : n.children = name.inRole .name :: bindings)
    (detail : n.detail = .typeOnly isTypeOnly) (areBindings : AreBindings bindings)
    (names : name.Names IsName)
    (notFrom : isTypeOnly = true → name.identifierName? = some "from" → bindings = [])

end Node

/-! ## Reading a declaration off the tree -/

namespace Node

variable {n first name : Node} {role other : Role} {isTypeOnly : Bool}

@[simp] theorem inRole_role : (n.inRole role).role = role := rfl

@[simp] theorem inRole_kind : (n.inRole role).kind = n.kind := rfl

@[simp] theorem inRole_children : (n.inRole role).children = n.children := rfl

@[simp] theorem inRole_identifierName? : (n.inRole role).identifierName? = n.identifierName? := rfl

@[simp] theorem inRole_propertyText? : (n.inRole role).propertyText? = n.propertyText? := rfl

@[simp] theorem inRole_isTypeOnly : (n.inRole role).isTypeOnly = n.isTypeOnly := rfl

theorem isTypeOnly_eq (detail : n.detail = .typeOnly isTypeOnly) : n.isTypeOnly = isTypeOnly := by
  rw [Node.isTypeOnly, detail]
  cases isTypeOnly <;> rfl

/-- The first child in a role, where the children in that role come first. -/
theorem child?_front {front back : List Node} (children : n.children = front ++ back)
    (inFront : ∀ c ∈ front, c.role = role) (behind : ∀ c ∈ back, c.role ≠ role) :
    n.child? role = front.head? := by
  rw [child?, children]
  cases front with
  | nil => exact List.find?_eq_none.2 (by simpa using behind)
  | cons c front => simp [inFront c (.head _)]

/-- The first child in a role, where the children in another role come first. -/
theorem child?_back {front back : List Node} (children : n.children = front ++ back)
    (inFront : ∀ c ∈ front, c.role ≠ role) (behind : ∀ c ∈ back, c.role = role) :
    n.child? role = back.head? := by
  have none : front.find? (·.role == role) = none := List.find?_eq_none.2 (by simpa using inFront)
  rw [child?, children, List.find?_append, none, Option.none_or]
  cases back with
  | nil => rfl
  | cons c back => simp [behind c (.head _)]

end Node

namespace ImportItem

variable {n first name : Node} {isTypeOnly : Bool}

theorem ofNode_single (children : n.children = [first.inRole .name])
    (detail : n.detail = .typeOnly isTypeOnly) :
    ofNode n = { exported := first.identifierName?.getD "", isTypeOnly } := by
  simp [ofNode, Node.specifiedName?, Node.nameIn?, Node.child?, children,
    Node.isTypeOnly_eq detail]

theorem ofNode_renamed {x : String}
    (children : n.children = [first.inRole .propertyName, name.inRole .name])
    (detail : n.detail = .typeOnly isTypeOnly) (exported : first.identifierName? = some x) :
    ofNode n = { exported := x, renamed := name.identifierName?, isTypeOnly } := by
  simp [ofNode, Node.specifiedName?, Node.nameIn?, Node.child?, children, exported,
    Node.isTypeOnly_eq detail]

@[simp] theorem ofNode_inRole {role : Role} : ofNode (n.inRole role) = ofNode n := rfl

end ImportItem

namespace Import

variable {n clause bindings specifier : Node} {module : String}

/-- The import that a clause expresses. -/
def ofClause (clause : Node) (specifier : String) : Import :=
  let bindings := clause.child? .namedBindings
  let ofKind (k : Kind) : Option Node := bindings.filter (·.kind == k)
  { isTypeOnly := clause.isTypeOnly
    defaultName := clause.nameIn? .name
    namespaceName := (ofKind .namespaceImport).bind (·.nameIn? .name)
    items := ((ofKind .namedImports).toList.flatMap (·.childrenIn .elements)).map ImportItem.ofNode
    specifier }

theorem ofNode_bare (children : n.children = [specifier.inRole .moduleSpecifier]) :
    ofNode n = { specifier := specifier.propertyText?.getD "" } := by
  simp [ofNode, Node.child?, children]

theorem ofNode_clause (children : n.children =
    [clause.inRole .importClause, specifier.inRole .moduleSpecifier]) :
    ofNode n = ofClause clause (specifier.propertyText?.getD "") := by
  have found : n.child? .importClause = some (clause.inRole .importClause) := by
    simp [Node.child?, children]
  have module : n.child? .moduleSpecifier = some (specifier.inRole .moduleSpecifier) := by
    simp [Node.child?, children]
  rw [ofNode, found, module]
  rfl

theorem ofClause_nothing (none : clause.child? .namedBindings = none) :
    ofClause clause module =
      { isTypeOnly := clause.isTypeOnly, defaultName := clause.nameIn? .name
        specifier := module } := by
  simp [ofClause, none]

theorem ofClause_namespace {name : Node} (found : clause.child? .namedBindings = some bindings)
    (kind : bindings.kind = .namespaceImport) (children : bindings.children = [name.inRole .name]) :
    ofClause clause module =
      { isTypeOnly := clause.isTypeOnly, defaultName := clause.nameIn? .name
        namespaceName := name.identifierName?, specifier := module } := by
  have name : bindings.nameIn? .name = name.identifierName? := by
    simp [Node.nameIn?, Node.child?, children]
  simp [ofClause, found, Option.filter, kind, name]

theorem ofClause_items {items : List Node} (found : clause.child? .namedBindings = some bindings)
    (kind : bindings.kind = .namedImports)
    (children : bindings.children = items.map (·.inRole .elements)) :
    ofClause clause module =
      { isTypeOnly := clause.isTypeOnly, defaultName := clause.nameIn? .name
        items := items.map ImportItem.ofNode, specifier := module } := by
  have elements : bindings.childrenIn .elements = items.map (·.inRole .elements) := by
    rw [Node.childrenIn, children]
    exact List.filter_eq_self.2 (by simp)
  simp [ofClause, found, Option.filter, kind, elements]

end Import

/-! ## Clauses are proper -/

namespace Node

variable {n : Node}

theorem AreBindings.role_eq {ns : List Node} (h : AreBindings ns) :
    ∀ c ∈ ns, c.role = .namedBindings := by
  cases h <;> simp

/-- What an import binds beside a default name is proper, whatever else it says. -/
theorem AreBindings.proper {ns : List Node} {module : String} (h : AreBindings ns)
    (complete : ∀ c ∈ ns, c.Complete) (found : n.child? .namedBindings = ns.head?)
    (defaultName : ∀ x ∈ n.nameIn? .name, IsName x)
    (notFrom : n.isTypeOnly = true → n.nameIn? .name = some "from" → ns = []) :
    (Import.ofClause n module).Proper := by
  cases h with
  | nothing =>
    rw [Import.ofClause_nothing found]
    exact ⟨defaultName, nofun, by simp, nofun, fun _ _ => ⟨rfl, rfl⟩⟩
  | @«namespace» bindings name kind children names =>
    rw [Import.ofClause_namespace found kind children]
    have complete : bindings.Complete := (complete _ (.head _)).ofRole
    have mem : name.inRole .name ∈ bindings.children := by simp [children]
    have present : name.flags.missing = false := (complete.child mem).ofRole.present
    exact ⟨defaultName, fun x hx => names.name present hx, by simp, fun _ => rfl,
      fun isTypeOnly isFrom => nomatch notFrom isTypeOnly isFrom⟩
  | @items bindings items kind children areItems =>
    rw [Import.ofClause_items found kind children]
    have complete : bindings.Complete := (complete _ (.head _)).ofRole
    refine ⟨defaultName, nofun, fun item hitem => ?_, nofun,
      fun isTypeOnly isFrom => nomatch notFrom isTypeOnly isFrom⟩
    obtain ⟨i, hi, rfl⟩ := List.mem_map.1 hitem
    exact areItems i hi (complete.child (children ▸ List.mem_map_of_mem hi)).ofRole

theorem IsClause.proper {module : String} (h : n.IsClause) (complete : n.Complete) :
    (Import.ofClause n module).Proper := by
  cases h with
  | @unnamed isTypeOnly bindings children detail areBindings =>
    have noName : n.child? .name = none := by
      refine List.find?_eq_none.2 fun c hc => ?_
      rw [areBindings.role_eq c (children ▸ hc)]
      decide
    have found : n.child? .namedBindings = bindings.head? :=
      child?_front (children.trans (List.append_nil _).symm) areBindings.role_eq (by simp)
    refine areBindings.proper (fun c hc => complete.child (children ▸ hc)) found ?_ ?_
    all_goals simp [nameIn?, noName]
  | @named isTypeOnly name bindings children detail areBindings names notFrom =>
    have hname : n.nameIn? .name = name.identifierName? := by
      simp [nameIn?, child?, children]
    have parts : n.children = [name.inRole .name] ++ bindings := children
    have found : n.child? .namedBindings = bindings.head? :=
      child?_back parts (by simp) areBindings.role_eq
    have mem : name.inRole .name ∈ n.children := by simp [children]
    have present : name.flags.missing = false := (complete.child mem).ofRole.present
    refine areBindings.proper (fun c hc => complete.child (children ▸ .tail _ hc)) found
      (fun x hx => names.name present (hname ▸ hx)) fun marked isFrom => ?_
    exact notFrom ((isTypeOnly_eq detail).symm.trans marked) (hname ▸ isFrom)

end Node

namespace Parser

variable {knot : Knot} {text : List Char} {s t : State} {n : Node} {ns : List Node}

/-! ## Names -/

theorem identifierIf_run {test : Kind → Bool} (hrun : (identifierIf test).run knot s = some (n, t)) :
    n.flags.missing = true ∨
      test s.token.kind = true ∧ n.identifierName? = some s.token.value := by
  rw [identifierIf, run_kind] at hrun
  split at hrun
  · next isHere =>
    cases hrun
    exact .inr ⟨isHere, rfl⟩
  · cases hrun
    exact .inl rfl

/-- A name that is there is consumed. -/
theorem identifier_run (isName : s.token.kind.isName = true)
    (hrun : identifier.run knot s = some (n, t)) :
    n.identifierName? = some s.token.value ∧ t = { s with toReading := s.advance } := by
  rw [identifier, identifierIf, run_kind, if_pos isName] at hrun
  cases hrun
  exact ⟨rfl, rfl⟩

theorem identifier_names (exact : s.Exact text) (hrun : identifier.run knot s = some (n, t)) :
    n.Names IsName := by
  refine (identifierIf_run hrun).imp id fun ⟨isName, name⟩ => ⟨_, name, ?_⟩
  obtain ⟨word, kind⟩ := exact.named (Kind.isPropertyWord_of_isName isName)
  exact ⟨word, kind ▸ isName⟩

/-! ## Items in braces -/

theorem run_nextIs {β : Type} {test : Kind → Bool} {f : Bool → Parser β} (leads : knot.Leads) :
    (nextIs test >>= f).run knot s = (f (test s.advance.token.kind)).run knot s := by
  rw [run_eq_bind, nextIs, lookAhead_run leads]
  rfl

/-- Behind a `type` that marks an item stands another word than `as`. -/
theorem specifierType_run {isTypeOnly : Bool} (leads : knot.Leads)
    (hrun : specifierType.run knot s = some (isTypeOnly, t)) (marked : isTypeOnly = true) :
    t.token.kind ≠ .asKeyword := by
  rw [specifierType, run_kind, run_nextIs leads] at hrun
  split at hrun
  · next isMark =>
    cases hrun
    simp only [Bool.and_eq_true, bne_iff_ne] at isMark
    exact isMark.2.2
  · cases hrun
    cases marked

/-- The names of an item, of which the first is the current word. -/
theorem specifiedNames_run {localName : Parser Node} (leads : knot.Leads) (exact : s.Exact text)
    (hrun : (specifiedNames localName).run knot s = some (ns, t)) :
    ∃ first : Node, (first.flags.missing = true ∨ s.token.kind.isPropertyWord = true ∧
        first.identifierName? = some s.token.value) ∧
      (ns = [first.inRole .name] ∨ ∃ (name : Node) (u v : State), u.Exact text ∧
        localName.run knot u = some (name, v) ∧
        ns = [first.inRole .propertyName, name.inRole .name]) := by
  obtain ⟨first, u, hfirst, hrun⟩ := run_bind hrun
  have exact := (propertyWord.leads leads hfirst).run.exact exact
  refine ⟨first, identifierIf_run hfirst, ?_⟩
  obtain ⟨found, v, hfound, hrun⟩ := run_bind hrun
  have exact := ((accept _).leads leads hfound).run.exact exact
  split at hrun
  · obtain ⟨name, w, hname, hrun⟩ := run_bind hrun
    cases hrun
    exact .inr ⟨name, v, _, exact, hname, rfl⟩
  · cases hrun
    exact .inl rfl

/-- An item has a name that the module knows it by. -/
theorem moduleItem_names {k : Kind} {localName : Parser Node} (leads : knot.Leads)
    (exact : s.Exact text) (hrun : (moduleItem k localName).run knot s = some (n, t))
    (complete : n.Complete) : ∃ x, n.specifiedName? = some x ∧ IsWord x := by
  rw [moduleItem, run_here] at hrun
  obtain ⟨isTypeOnly, u, hmark, hrun⟩ := run_bind hrun
  have exact := (specifierType.leads leads hmark).run.exact exact
  obtain ⟨names, v, hnames, hrun⟩ := run_bind hrun
  cases hrun
  obtain ⟨first, hfirst, hnames⟩ := specifiedNames_run leads exact hnames
  have word (present : first.flags.missing = false) :
      first.identifierName? = some u.token.value ∧ IsWord u.token.value := by
    obtain missing | ⟨isWord, name⟩ := hfirst
    · rw [present] at missing
      cases missing
    · exact ⟨name, (exact.named isWord).1⟩
  obtain rfl | ⟨name, _, _, -, -, rfl⟩ := hnames
  all_goals
    obtain ⟨name, isWord⟩ := word (complete.child (.head _)).ofRole.present
    exact ⟨_, by simp [Node.specifiedName?, Node.nameIn?, Node.child?, name], isWord⟩

theorem moduleItem_isItem {k : Kind} (leads : knot.Leads) (exact : s.Exact text)
    (hrun : (moduleItem k identifier).run knot s = some (n, t)) : n.IsItem := by
  rw [moduleItem, run_here] at hrun
  obtain ⟨isTypeOnly, u, hmark, hrun⟩ := run_bind hrun
  have exact := (specifierType.leads leads hmark).run.exact exact
  obtain ⟨names, v, hnames, hrun⟩ := run_bind hrun
  cases hrun
  intro complete
  obtain ⟨first, hfirst, hnames⟩ := specifiedNames_run leads exact hnames
  have word (present : first.flags.missing = false) :
      first.identifierName? = some u.token.value ∧ IsWord u.token.value ∧
        (isTypeOnly = true → u.token.value ≠ "as") := by
    obtain missing | ⟨isWord, name⟩ := hfirst
    · rw [present] at missing
      cases missing
    obtain ⟨spelled, kind⟩ := exact.named isWord
    refine ⟨name, spelled, fun marked isAs => ?_⟩
    rw [isAs] at kind
    exact specifierType_run leads hmark marked (kind.symm.trans (by decide))
  obtain rfl | ⟨name, _, _, exact, hname, rfl⟩ := hnames
  · have present := (complete.child (.head _)).ofRole.present
    obtain ⟨value, isWord, notAs⟩ := word present
    rw [ImportItem.ofNode_single rfl rfl, value]
    exact ⟨isWord, by simp, notAs⟩
  · have present := (complete.child (.head _)).ofRole.present
    obtain ⟨value, isWord, notAs⟩ := word present
    have renamed := (complete.child (.tail _ (.head _))).ofRole.present
    rw [ImportItem.ofNode_renamed rfl rfl value]
    exact ⟨isWord, fun x hx => (identifier_names exact hname).name renamed hx, notAs⟩

/-- What holds of every item holds of all items of a list. -/
theorem commaList_forall {α : Type} {stop : Kind → Bool} {item : Parser α} {P : α → Prop}
    (leads : knot.Leads)
    (one : ∀ {s : State} {a : α} {t : State}, s.Exact text → item.run knot s = some (a, t) → P a)
    (exact : s.Exact text) {as : List α} (hrun : (commaList stop item).run knot s = some (as, t)) :
    ∀ a ∈ as, P a := by
  refine loop_keeps (fun items s => s.Exact text ∧ ∀ a ∈ items, P a)
    (Q := fun items _ => ∀ a ∈ items, P a) (fun {items s r t} ⟨exact, before⟩ hround => ?_)
    ⟨exact, by simp⟩ hrun
  rw [run_kind] at hround
  split at hround
  · cases hround
    simpa using before
  · obtain ⟨a, u, ha, hround⟩ := run_bind hround
    have all : ∀ b ∈ a :: items, P b := List.forall_mem_cons.2 ⟨one exact ha, before⟩
    have exact := (item.leads leads ha).run.exact exact
    obtain ⟨found, v, hfound, hround⟩ := run_bind hround
    have exact := ((accept _).leads leads hfound).run.exact exact
    split at hround
    · cases hround
      exact ⟨exact, all⟩
    · cases hround
      exact fun b hb => all b (List.mem_reverse.1 hb)

theorem namedImports_areBindings (leads : knot.Leads) (exact : s.Exact text)
    (hrun : namedImports.run knot s = some (n, t)) :
    Node.AreBindings [n.inRole .namedBindings] := by
  rw [namedImports, moduleItems, run_here] at hrun
  obtain ⟨_, u, hopen, hrun⟩ := run_bind hrun
  have exact := ((require _).leads leads hopen).run.exact exact
  obtain ⟨items, v, hitems, hrun⟩ := run_bind hrun
  obtain ⟨_, w, -, hrun⟩ := run_bind hrun
  cases hrun
  exact .items rfl rfl (commaList_forall leads (moduleItem_isItem leads) exact hitems)

/-! ## Clauses -/

theorem namespaceImport_areBindings (leads : knot.Leads) (exact : s.Exact text)
    (hrun : namespaceImport.run knot s = some (n, t)) :
    Node.AreBindings [n.inRole .namedBindings] := by
  rw [namespaceImport, run_here, run_advance] at hrun
  obtain ⟨_, u, has, hrun⟩ := run_bind hrun
  have exact := ((require _).leads leads has).run.exact ((Step.advance _).exact exact)
  obtain ⟨name, v, hname, hrun⟩ := run_bind hrun
  cases hrun
  exact .namespace rfl rfl (identifier_names exact hname)

theorem namedBindings_areBindings (leads : knot.Leads) (exact : s.Exact text)
    (hrun : namedBindings.run knot s = some (ns, t)) : Node.AreBindings ns := by
  rw [namedBindings, run_kind] at hrun
  split at hrun
  · obtain ⟨n, u, hn, hrun⟩ := run_bind hrun
    cases hrun
    exact namespaceImport_areBindings leads exact hn
  · obtain ⟨n, u, hn, hrun⟩ := run_bind hrun
    cases hrun
    exact namedImports_areBindings leads exact hn
  · cases hrun
    exact .nothing

/-- Behind a default name other bindings need a comma. -/
theorem otherBindings_areBindings {hasName : Bool} (leads : knot.Leads) (exact : s.Exact text)
    (hrun : (otherBindings hasName).run knot s = some (ns, t)) :
    Node.AreBindings ns ∧ (hasName = true → s.token.kind ≠ .comma → ns = []) := by
  cases hasName with
  | false => exact ⟨namedBindings_areBindings leads exact hrun, nofun⟩
  | true =>
    rw [otherBindings, if_pos rfl, accept] at hrun
    by_cases comma : s.token.kind = .comma
    · refine ⟨?_, fun _ other => absurd comma other⟩
      obtain ⟨found, u, hfound, hrun⟩ := run_bind hrun
      have exact := ((accept .comma).leads leads hfound).run.exact exact
      split at hrun
      · exact namedBindings_areBindings leads exact hrun
      · cases hrun
        exact .nothing
    · rw [run_eq_bind, run_kind, if_neg comma] at hrun
      cases hrun
      exact ⟨.nothing, fun _ _ => rfl⟩

/-- What is known of a `type` that makes the whole import a type import. -/
theorem isTypeImport_run {isTypeOnly : Bool} (leads : knot.Leads)
    (hrun : isTypeImport.run knot s = some (isTypeOnly, t)) :
    t = s ∧ (isTypeOnly = true → s.advance.token.kind = .fromKeyword →
      s.advance.advance.token.kind = .fromKeyword) := by
  rw [isTypeImport, run_kind] at hrun
  split at hrun
  · rw [lookAhead_run leads, run_advance, run_kind] at hrun
    dsimp only at hrun
    split at hrun
    · next next =>
      cases hrun
      exact ⟨rfl, fun _ isFrom => nomatch next.symm.trans isFrom⟩
    · next next =>
      cases hrun
      exact ⟨rfl, fun _ isFrom => nomatch next.symm.trans isFrom⟩
    · rw [nextIs, lookAhead_run leads] at hrun
      cases hrun
      exact ⟨rfl, fun isTypeOnly _ => beq_iff_eq.1 isTypeOnly⟩
    · next notFrom =>
      cases hrun
      exact ⟨rfl, fun _ isFrom => absurd isFrom notFrom⟩
  · cases hrun
    exact ⟨rfl, nofun⟩

theorem importClause_isClause (leads : knot.Leads) (exact : s.Exact text)
    (hrun : importClause.run knot s = some (n, t)) : n.IsClause := by
  rw [importClause, run_here] at hrun
  obtain ⟨isTypeOnly, u, htype, hrun⟩ := run_bind hrun
  obtain ⟨rfl, fromFrom⟩ := isTypeImport_run leads htype
  obtain ⟨_, v, hskip, hrun⟩ := run_bind hrun
  have exact := ((skipIf _).leads leads hskip).run.exact exact
  obtain ⟨names, w, hname, hrun⟩ := run_bind hrun
  obtain ⟨bindings, x, hbindings, hrun⟩ := run_bind hrun
  have exact' := ((optionalName _).leads leads hname).run.exact exact
  obtain ⟨areBindings, needComma⟩ := otherBindings_areBindings leads exact' hbindings
  cases hrun
  rw [optionalName, run_kind] at hname
  split at hname
  · next isName =>
    obtain ⟨name, y, hname, hrun⟩ := run_bind hname
    cases hrun
    refine .named rfl rfl areBindings (identifier_names exact hname) fun marked isFrom => ?_
    subst marked
    cases hskip
    obtain ⟨value, rfl⟩ := identifier_run isName hname
    obtain ⟨-, kind⟩ := exact.named (Kind.isPropertyWord_of_isName isName)
    rw [Option.some_inj.1 (value.symm.trans isFrom)] at kind
    have next := fromFrom rfl (kind.symm.trans (by decide))
    refine needComma rfl fun comma => ?_
    cases next.symm.trans comma
  · cases hname
    exact .unnamed rfl rfl areBindings

/-! ## Declarations -/

theorem optionalClause_run (leads : knot.Leads) (exact : s.Exact text)
    (hrun : optionalClause.run knot s = some (ns, t)) :
    ns = [] ∨ ∃ clause : Node, ns = [clause.inRole .importClause] ∧ clause.IsClause := by
  rw [optionalClause, run_kind] at hrun
  split at hrun
  · cases hrun
    exact .inl rfl
  · obtain ⟨clause, u, hclause, hrun⟩ := run_bind hrun
    obtain ⟨_, v, -, hrun⟩ := run_bind hrun
    cases hrun
    exact .inr ⟨clause, rfl, importClause_isClause leads exact hclause⟩

/-- Whatever import declaration is read, if nothing is missing in it the import is proper. -/
theorem importDeclaration_proper (leads : knot.Leads) (exact : s.Exact text)
    (hrun : importDeclaration.run knot s = some (n, t)) (complete : n.Complete) :
    (Import.ofNode n).Proper := by
  rw [importDeclaration, run_here] at hrun
  obtain ⟨_, u, himport, hrun⟩ := run_bind hrun
  have exact := ((require _).leads leads himport).run.exact exact
  obtain ⟨clauses, v, hclause, hrun⟩ := run_bind hrun
  obtain ⟨specifier, w, -, hrun⟩ := run_bind hrun
  obtain ⟨_, x, -, hrun⟩ := run_bind hrun
  obtain ⟨_, y, -, hrun⟩ := run_bind hrun
  cases hrun
  obtain rfl | ⟨clause, rfl, isClause⟩ := optionalClause_run leads exact hclause
  · rw [Import.ofNode_bare rfl]
    exact ⟨by simp, by simp, by simp, by simp, by simp⟩
  · rw [Import.ofNode_clause rfl]
    exact isClause.proper (complete.child (.head _)).ofRole

end Parser
end FactorySync
