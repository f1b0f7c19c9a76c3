import FactorySync.Proofs.Rows
import FactorySync.Proofs.Ranges

/-!
# Printed imports are read back

A proper import is printed as a row of words (`Import.spells`), and the productions of the grammar
take these words one after the other (`Import.statement_readsRow`). So the text of the import is a
file with one statement, which expresses the import (`Import.parse_text`).
-/

namespace FactorySync

open Parse

/-! ## The words of an import -/

namespace ImportItem

/-- The words after the name of an item. -/
def renamedWords (i : ImportItem) : List Word :=
  match i.renamed with
  | some name => [.keyword .asKeyword, .name name]
  | none => []

def nameWords (i : ImportItem) : List Word := .name i.exported :: i.renamedWords

def words (i : ImportItem) : List Word :=
  if i.isTypeOnly then .keyword .typeKeyword :: i.nameWords else i.nameWords

end ImportItem

namespace Import

/-- The words for what is bound beside a default name. -/
def bindingWords (i : Import) : List Word :=
  match i.namespaceName with
  | some name => [.mark .asterisk '*', .keyword .asKeyword, .name name]
  | none =>
    if i.items.isEmpty then []
    else .mark .openBrace '\x7b' :: Word.list ImportItem.words i.items ++ [.mark .closeBrace '\x7d']

/-- The words of the clause behind the default name. -/
def behindNameWords (i : Import) : List Word :=
  if i.defaultName.isSome && !i.bindingWords.isEmpty then .mark .comma ',' :: i.bindingWords
  else i.bindingWords

def clauseWords (i : Import) : List Word :=
  i.defaultName.toList.map .name ++ i.behindNameWords

/-- The mark of a type import. -/
def typeWords (i : Import) : List Word := if i.isTypeOnly then [.keyword .typeKeyword] else []

/-- The words behind the clause. -/
def moduleWords (q : QuoteMark) (i : Import) : List Word :=
  [.keyword .fromKeyword, .quoted q i.specifier, .mark .semicolon ';']

/-- The words behind `import`. -/
def behindWords (q : QuoteMark) (i : Import) : List Word :=
  i.typeWords ++ (i.clauseWords ++ i.moduleWords q)

def words (q : QuoteMark) (i : Import) : List Word := .keyword .importKeyword :: i.behindWords q

end Import

/-! ## The text spells the words -/

section Text

variable {tail cs : List Char} {ws : List Word}

open Word

namespace ImportItem

variable {i : ImportItem}

theorem Proper.name_spells (proper : i.Proper) (h : Spells tail cs ws) (ends : EndsName cs) :
    Spells tail (i.exported.toList ++ (match i.renamed with
      | some name => " as ".toList ++ name.toList
      | none => []) ++ cs) (i.nameWords ++ ws) := by
  rw [nameWords, renamedWords]
  cases renamed : i.renamed with
  | none =>
    rw [List.append_nil]
    exact h.name proper.exported ends
  | some name =>
    rw [List.append_assoc]
    have renamed := (h.name (proper.renamed name renamed).word ends).keyword (k := .asKeyword)
    exact (renamed (by decide)).nameBlank proper.exported

theorem Proper.spells (proper : i.Proper) (h : Spells tail cs ws) (ends : EndsName cs) :
    Spells tail (i.text ++ cs) (i.words ++ ws) := by
  have names := proper.name_spells h ends
  rw [text, words]
  cases i.isTypeOnly with
  | false => exact names
  | true =>
    rw [if_pos rfl, if_pos rfl, List.append_assoc, List.append_assoc, ← List.append_assoc i.exported.toList]
    exact names.keyword (k := .typeKeyword) (by decide)

end ImportItem

namespace Import

variable {i : Import} {q : QuoteMark}

/-- The text for what is bound beside a default name, if anything is. -/
def bindingText (i : Import) : Option (List Char) :=
  match i.namespaceName with
  | some name => some ("* as ".toList ++ name.toList)
  | none =>
    if i.items.isEmpty then none
    else some (['\x7b', ' '] ++ ImportItem.listText i.items ++ [' ', '\x7d'])

theorem clauseText_eq (i : Import) : i.clauseText =
    match i.defaultName, i.bindingText with
    | some name, some bindings => name.toList ++ ([',', ' '] ++ bindings)
    | some name, none => name.toList
    | none, some bindings => bindings
    | none, none => [] := by
  rw [clauseText, bindingText]
  cases i.defaultName <;> cases i.namespaceName <;> by_cases empty : i.items.isEmpty <;>
    simp [empty, List.intercalate]

theorem bindings_spell (proper : i.Proper) {text : List Char} (bindings : i.bindingText = some text)
    (h : Spells tail cs ws) (ends : EndsName cs) :
    Spells tail (text ++ cs) (i.bindingWords ++ ws) := by
  rw [bindingText] at bindings
  rw [bindingWords]
  split at bindings
  · next name namespaceName =>
    obtain rfl := Option.some_inj.1 bindings
    have named := h.name (proper.namespaceName name namespaceName).word ends
    rw [List.append_assoc]
    exact (named.keyword (k := .asKeyword) (by decide)).markBlank (by decide)
  · next namespaceName =>
    split at bindings
    · cases bindings
    · next some =>
      obtain rfl := Option.some_inj.1 bindings
      have closing := (h.mark (k := .closeBrace) (c := '\x7d') (by decide)).blank
      have items := Spells.list (fun _ => endsName_cons (by decide))
        (fun item mem => (proper.items item mem).spells) closing (endsName_cons (by decide))
      have opening := items.markBlank (k := .openBrace) (c := '\x7b') (by decide)
      rw [if_neg some, ImportItem.listText]
      simpa using opening

theorem bindingText_isNone (i : Import) :
    i.bindingText.isNone = (i.namespaceName.isNone && i.items.isEmpty) := by
  rw [bindingText]
  cases i.namespaceName <;> cases i.items <;> rfl

theorem bindingWords_isEmpty (i : Import) :
    i.bindingWords.isEmpty = (i.namespaceName.isNone && i.items.isEmpty) := by
  rw [bindingWords]
  cases i.namespaceName <;> cases i.items <;> rfl

theorem clause_spells (proper : i.Proper) (h : Spells tail cs ws) (ends : EndsName cs) :
    Spells tail (i.clauseText ++ cs) (i.clauseWords ++ ws) := by
  have same : i.bindingWords.isEmpty = i.bindingText.isNone :=
    (bindingWords_isEmpty i).trans (bindingText_isNone i).symm
  rw [clauseText_eq, clauseWords, behindNameWords, same]
  cases bindings : i.bindingText with
  | none =>
    rw [bindings] at same
    rw [List.isEmpty_iff.1 same]
    cases defaultName : i.defaultName with
    | none => exact h
    | some name => exact h.name (proper.defaultName name defaultName).word ends
  | some text =>
    have bound := bindings_spell proper bindings h ends
    cases defaultName : i.defaultName with
    | none => exact bound
    | some name =>
      have comma := bound.blank.mark (k := .comma) (c := ',') (by decide)
      have all := comma.name (proper.defaultName name defaultName).word
        (endsName_cons (by decide))
      simpa using all

theorem module_spells (line : OneLine i.specifier.toList) (h : Spells tail cs ws) :
    Spells tail (' ' :: ("from ".toList ++ (q.quoted i.specifier.toList ++ ';' :: cs)))
      (i.moduleWords q ++ ws) := by
  have ending := h.mark (k := .semicolon) (c := ';') (by decide)
  have behind := (ending.quoted (q := q) line).keyword (k := .fromKeyword) (by decide)
  exact behind.blank

theorem text_eq (binds : i.bindsNothing = false) : i.text q =
    "import ".toList ++ ((if i.isTypeOnly then "type ".toList else []) ++
      (i.clauseText ++ " from ".toList ++ q.quoted i.specifier.toList ++ [';'])) := by
  unfold text
  simp only [binds, Bool.false_eq_true, if_false, List.append_assoc]

/-- The text of an import that binds something is the row of its words. -/
theorem spells (proper : i.Proper) (binds : i.bindsNothing = false)
    (line : OneLine i.specifier.toList) (h : Spells tail cs ws) :
    Spells tail (i.text q ++ cs) (i.words q ++ ws) := by
  have behind := module_spells (q := q) line h
  have clause := clause_spells proper behind (endsName_cons (by decide))
  rw [text_eq binds, words, behindWords, typeWords]
  simp only [List.append_assoc, List.cons_append]
  cases i.isTypeOnly with
  | false => exact clause.keyword (k := .importKeyword) (by decide)
  | true =>
    have typed := clause.keyword (k := .typeKeyword) (by decide)
    exact typed.keyword (k := .importKeyword) (by decide)

end Import

end Text

/-! ## The words are read -/

namespace Parser

open ReadsRow

variable {c : Context} {ws : List Word} {x : String}

theorem identifierIf_readsRow {test : Kind → Bool} (names : test (.ofName x) = true) :
    (identifierIf test).ReadsRow c (.name x :: ws) ws fun n => n.identifierName? = some x := by
  refine .andThen .kind (.ite_pos names (.bind .token fun t ht => .andThen .advance (.pure ?_)))
  exact congrArg some ht.value

theorem propertyWord_readsRow :
    propertyWord.ReadsRow c (.name x :: ws) ws fun n => n.identifierName? = some x :=
  identifierIf_readsRow (Kind.isPropertyWord_ofName x)

theorem identifier_readsRow (isName : IsName x) :
    identifier.ReadsRow c (.name x :: ws) ws fun n => n.identifierName? = some x :=
  identifierIf_readsRow isName.kind

/-! ### Items -/

/-- In front of a word other than `as` the word `type` is a mark. -/
theorem specifierType_marked (notAs : x ≠ "as") :
    specifierType.ReadsRow c (.keyword .typeKeyword :: .name x :: ws) (.name x :: ws)
      (· = true) := by
  have other : Kind.ofName x ≠ .asKeyword := fun isAs => notAs (Kind.eq_of_ofName isAs rfl)
  have isMark : ((Kind.ofName x).isPropertyWord && Kind.ofName x != .asKeyword) = true := by
    rw [Kind.isPropertyWord_ofName, bne_iff_ne.2 other]
    rfl
  exact .andThen .kind (.andThen .nextIs (.ite_pos isMark (.andThen .advance (.pure rfl))))

/-- Nothing is marked where no word or the word `as` follows. -/
theorem specifierType_unmarked (next : (Word.first ws).kind.isPropertyWord = false ∨
    (Word.first ws).kind = .asKeyword) :
    specifierType.ReadsRow c (.name x :: ws) (.name x :: ws) (· = false) := by
  have noMark : ((Word.first ws).kind.isPropertyWord && (Word.first ws).kind != .asKeyword) = false := by
    obtain next | next := next <;> rw [next] <;> rfl
  refine .andThen .kind (.andThen .nextIs (.ite_neg ?_ (.pure rfl)))
  rw [List.tail_cons, noMark, Bool.and_false]
  exact Bool.false_ne_true

/-- The nodes stand for the names of an item. -/
def AreNames (i : ImportItem) (ns : List Node) : Prop :=
  ∃ first : Node, first.identifierName? = some i.exported ∧
    match i.renamed with
    | some x => ∃ name : Node, name.identifierName? = some x ∧
      ns = [first.inRole .propertyName, name.inRole .name]
    | none => ns = [first.inRole .name]

theorem specifiedNames_readsRow {i : ImportItem} (proper : i.Proper)
    (notAs : (Word.first ws).kind ≠ .asKeyword) :
    (specifiedNames identifier).ReadsRow c (i.nameWords ++ ws) ws (AreNames i) := by
  refine .bind propertyWord_readsRow fun first hfirst => ?_
  rw [ImportItem.renamedWords]
  cases renamed : i.renamed with
  | none =>
    refine .andThen (.accept_neg notAs) (.ite_neg Bool.false_ne_true (.pure ⟨first, hfirst, ?_⟩))
    rw [renamed]
  | some x =>
    refine .andThen (.accept_pos rfl) (.ite_pos rfl ?_)
    refine .bind (identifier_readsRow (proper.renamed x renamed)) fun name hname => ?_
    refine .pure ⟨first, hfirst, ?_⟩
    rw [renamed]
    exact ⟨name, hname, rfl⟩

theorem AreNames.ofNode {i : ImportItem} {n : Node} (h : AreNames i n.children)
    (detail : n.detail = .typeOnly i.isTypeOnly) : ImportItem.ofNode n = i := by
  obtain ⟨exported, renamed, isTypeOnly⟩ := i
  obtain ⟨first, exported, children⟩ := h
  cases renamed with
  | none =>
    rw [ImportItem.ofNode_single children detail, exported]
    rfl
  | some x =>
    obtain ⟨name, renamed, children⟩ := children
    rw [ImportItem.ofNode_renamed children detail exported, renamed]

theorem moduleItem_readsRow {i : ImportItem} {k : Kind} (proper : i.Proper)
    (next : (Word.first ws).kind.isPropertyWord = false) :
    (moduleItem k identifier).ReadsRow c (i.words ++ ws) ws (ImportItem.ofNode · = i) := by
  have notAs : (Word.first ws).kind ≠ .asKeyword := fun isAs => by
    rw [isAs] at next
    cases next
  have mark : specifierType.ReadsRow c (i.words ++ ws) (i.nameWords ++ ws) (· = i.isTypeOnly) := by
    rw [ImportItem.words]
    cases marked : i.isTypeOnly with
    | true => exact specifierType_marked (proper.notAs marked)
    | false =>
      refine specifierType_unmarked ?_
      rw [ImportItem.renamedWords]
      cases i.renamed with
      | none => exact .inl next
      | some x => exact .inr rfl
  refine .bind .here fun start _ => .andThen mark ?_
  refine .bind (specifiedNames_readsRow proper notAs) fun names hnames => ?_
  refine .bind .node fun n hn => .pure ?_
  exact AreNames.ofNode (hn.2.2 ▸ hnames) rfl

/-! ### Bindings -/

theorem namespaceImport_readsRow (isName : IsName x) :
    namespaceImport.ReadsRow c (.mark .asterisk '*' :: .keyword .asKeyword :: .name x :: ws) ws
      fun n => n.kind = .namespaceImport ∧ ∃ name : Node, name.identifierName? = some x ∧
        n.children = [name.inRole .name] := by
  refine .bind .here fun start _ => .andThen .advance (.andThen (.require rfl) ?_)
  refine .bind (identifier_readsRow isName) fun name hname => .mono .node fun n hn => ?_
  exact ⟨hn.1, name, hname, hn.2.2⟩

/-- No list ends where an item begins. -/
theorem item_begins (i : ImportItem) :
    (Word.first (i.words ++ ws)).kind.endsBlock = false := by
  rw [ImportItem.words]
  cases i.isTypeOnly with
  | true => rfl
  | false =>
    have word := Kind.isPropertyWord_ofName i.exported
    refine Bool.eq_false_iff.2 fun ends => ?_
    rw [Kind.endsBlock, Bool.or_eq_true, beq_iff_eq, beq_iff_eq] at ends
    obtain ends | ends := ends
    all_goals
      rw [show Kind.ofName i.exported = _ from ends] at word
      cases word

theorem namedImports_readsRow {items : List ImportItem} (proper : ∀ i ∈ items, i.Proper) :
    namedImports.ReadsRow c (.mark .openBrace '\x7b' ::
        (Word.list ImportItem.words items ++ .mark .closeBrace '\x7d' :: ws)) ws
      fun n => n.kind = .namedImports ∧ ∃ ns : List Node, ns.map ImportItem.ofNode = items ∧
        n.children = ns.map (·.inRole .elements) := by
  have all : (commaList Kind.endsBlock (moduleItem .importSpecifier identifier)).ReadsRow c
      (Word.list ImportItem.words items ++ .mark .closeBrace '\x7d' :: ws)
      (.mark .closeBrace '\x7d' :: ws) (List.Forall₂ (fun i n => ImportItem.ofNode n = i) items) :=
    .commaList (fun w => w.kind.isPropertyWord = false) rfl
      (fun i mem ws next => ⟨item_begins i, moduleItem_readsRow (proper i mem) next⟩) rfl rfl nofun
  refine .bind .here fun start _ => .andThen (.require rfl) ?_
  refine .bind all fun ns hns => .andThen (.require rfl) (.mono .node fun n hn => ?_)
  refine ⟨hn.1, ns, ?_, hn.2.2⟩
  clear all hn
  induction hns with
  | nil => rfl
  | cons head _ ih =>
    rw [List.map_cons, head, ih (List.forall_mem_cons.1 proper).2]

/-- The nodes stand for what an import binds beside a default name. -/
def AreBindings (i : Import) (ns : List Node) : Prop :=
  match i.namespaceName with
  | some x => ∃ n name : Node, ns = [n.inRole .namedBindings] ∧ n.kind = .namespaceImport ∧
      name.identifierName? = some x ∧ n.children = [name.inRole .name]
  | none =>
    if i.items.isEmpty then ns = []
    else ∃ (n : Node) (items : List Node), ns = [n.inRole .namedBindings] ∧ n.kind = .namedImports ∧
      items.map ImportItem.ofNode = i.items ∧ n.children = items.map (·.inRole .elements)

theorem namedBindings_readsRow {i : Import} (proper : i.Proper)
    (binds : i.bindingWords.isEmpty = false) :
    namedBindings.ReadsRow c (i.bindingWords ++ ws) ws (AreBindings i) := by
  rw [Import.bindingWords] at binds ⊢
  cases namespaceName : i.namespaceName with
  | some x =>
    refine .andThen .kind (.bind (namespaceImport_readsRow (proper.namespaceName x namespaceName)) ?_)
    rintro n ⟨kind, name, hname, children⟩
    refine .pure ?_
    rw [AreBindings, namespaceName]
    exact ⟨n, name, rfl, kind, hname, children⟩
  | none =>
    rw [namespaceName] at binds
    dsimp only at binds ⊢
    split at binds
    · cases binds
    · next full =>
      rw [if_neg full, List.cons_append, List.cons_append, List.append_assoc]
      refine .andThen .kind (.bind (namedImports_readsRow proper.items) ?_)
      rintro n ⟨kind, ns, items, children⟩
      refine .pure ?_
      rw [AreBindings, namespaceName]
      dsimp only
      rw [if_neg full]
      exact ⟨n, ns, rfl, kind, items, children⟩

/-! ### Clauses -/

/-- The nodes stand for the default name, if there is one. -/
def IsDefault (i : Import) (ns : List Node) : Prop :=
  match i.defaultName with
  | some x => ∃ name : Node, name.identifierName? = some x ∧ ns = [name.inRole .name]
  | none => ns = []

theorem IsDefault.role_eq {i : Import} {ns : List Node} (h : IsDefault i ns) :
    ∀ n ∈ ns, n.role = .name := by
  rw [IsDefault] at h
  split at h
  · obtain ⟨name, -, rfl⟩ := h
    simp
  · simp [h]

theorem IsDefault.isEmpty_eq {i : Import} {ns : List Node} (h : IsDefault i ns) :
    ns.isEmpty = i.defaultName.isNone := by
  rw [IsDefault] at h
  split at h
  · next defaultName =>
    obtain ⟨name, -, rfl⟩ := h
    rw [defaultName]
    rfl
  · next defaultName =>
    rw [h, defaultName]
    rfl

theorem IsDefault.name_eq {i : Import} {ns : List Node} (h : IsDefault i ns) :
    ns.head?.bind (·.identifierName?) = i.defaultName := by
  rw [IsDefault] at h
  split at h
  · next defaultName =>
    obtain ⟨name, hname, rfl⟩ := h
    rw [defaultName]
    exact hname
  · next defaultName =>
    rw [h, defaultName]
    rfl

theorem AreBindings.role_eq {i : Import} {ns : List Node} (h : AreBindings i ns) :
    ∀ n ∈ ns, n.role = .namedBindings := by
  rw [AreBindings] at h
  split at h
  · obtain ⟨n, name, rfl, -⟩ := h
    simp
  · split at h
    · simp [h]
    · obtain ⟨n, items, rfl, -⟩ := h
      simp

/-- A clause whose nodes stand for what the import binds expresses the import. -/
theorem AreBindings.ofClause {i : Import} {n : Node} {ns : List Node} (h : AreBindings i ns)
    (proper : i.Proper) (found : n.child? .namedBindings = ns.head?)
    (defaultName : n.nameIn? .name = i.defaultName) (isTypeOnly : n.isTypeOnly = i.isTypeOnly) :
    Import.ofClause n i.specifier = i := by
  rw [AreBindings] at h
  split at h
  · next x namespaceName =>
    obtain ⟨m, name, rfl, kind, hname, children⟩ := h
    have noItems := proper.single (by rw [namespaceName]; rfl)
    rw [Import.ofClause_namespace found kind children, defaultName, isTypeOnly, hname, ← namespaceName,
      ← noItems]
  · next namespaceName =>
    split at h
    · next empty =>
      subst h
      rw [Import.ofClause_nothing found, defaultName, isTypeOnly, ← namespaceName,
        ← List.isEmpty_iff.1 empty]
    · obtain ⟨m, items, rfl, kind, same, children⟩ := h
      rw [Import.ofClause_items found kind children, defaultName, isTypeOnly, same, ← namespaceName]

/-- A clause whose nodes stand for the parts of the import expresses the import. -/
theorem ofClause_parts {i : Import} {n : Node} {names bindings : List Node} (proper : i.Proper)
    (hnames : IsDefault i names) (hbindings : AreBindings i bindings)
    (children : n.children = names ++ bindings) (detail : n.detail = .typeOnly i.isTypeOnly) :
    Import.ofClause n i.specifier = i := by
  have found : n.child? .namedBindings = bindings.head? := by
    refine Node.child?_back children (fun c mem => ?_) hbindings.role_eq
    rw [hnames.role_eq c mem]
    exact nofun
  have first : n.child? .name = names.head? := by
    refine Node.child?_front children hnames.role_eq fun c mem => ?_
    rw [hbindings.role_eq c mem]
    exact nofun
  refine hbindings.ofClause proper found ?_ (Node.isTypeOnly_eq detail)
  rw [Node.nameIn?, first, hnames.name_eq]

/-- What stands behind a `type` that makes the whole import a type import. -/
def MarksImport (ws : List Word) : Prop :=
  (Word.first ws).kind = .openBrace ∨ (Word.first ws).kind = .asterisk ∨
    (Word.first ws).kind = .fromKeyword ∧ (Word.first ws.tail).kind = .fromKeyword ∨
    (Word.first ws).kind ≠ .fromKeyword ∧ (Word.first ws).kind.isName = true

theorem isTypeImport_marked (marks : MarksImport ws) :
    isTypeImport.ReadsRow c (.keyword .typeKeyword :: ws) (.keyword .typeKeyword :: ws)
      (· = true) := by
  refine .andThen .kind (.ite_pos rfl (.lookAhead ⟨ws, .andThen .advance ?_⟩))
  refine .andThen .kind ?_
  rw [List.tail_cons]
  split
  · exact .pure rfl
  · exact .pure rfl
  · next isFrom =>
    refine .mono .nextIs fun b hb => ?_
    obtain other | other | ⟨-, next⟩ | ⟨other, -⟩ := marks
    · cases isFrom.symm.trans other
    · cases isFrom.symm.trans other
    · rw [hb, next]
      rfl
    · exact absurd isFrom other
  · next noBrace noAsterisk notFrom =>
    refine .pure ?_
    obtain other | other | ⟨other, -⟩ | ⟨-, isName⟩ := marks
    · exact absurd other noBrace
    · exact absurd other noAsterisk
    · exact absurd other notFrom
    · exact isName

theorem isTypeImport_unmarked (plain : (Word.first ws).kind = .typeKeyword →
    (Word.first ws.tail).kind = .comma ∨
      (Word.first ws.tail).kind = .fromKeyword ∧ (Word.first ws.tail.tail).kind ≠ .fromKeyword) :
    isTypeImport.ReadsRow c ws ws (· = false) := by
  refine .andThen .kind ?_
  by_cases isType : (Word.first ws).kind = .typeKeyword
  · refine .ite_pos isType (.lookAhead ⟨ws.tail, .andThen .advance (.andThen .kind ?_)⟩)
    obtain comma | ⟨isFrom, other⟩ := plain isType
    · rw [comma]
      exact .pure rfl
    · rw [isFrom]
      exact .mono .nextIs fun b hb => hb.trans (beq_false_of_ne other)
  · exact .ite_neg isType (.pure rfl)

theorem optionalName_some {role : Role} (isName : IsName x) :
    (optionalName role).ReadsRow c (.name x :: ws) ws fun ns =>
      ∃ name : Node, name.identifierName? = some x ∧ ns = [name.inRole role] := by
  refine .andThen .kind (.ite_pos isName.kind ?_)
  exact .bind (identifier_readsRow isName) fun name hname => .pure ⟨name, hname, rfl⟩

theorem optionalName_none {role : Role} (noName : (Word.first ws).kind.isName = false) :
    (optionalName role).ReadsRow c ws ws (· = []) :=
  .andThen .kind (.ite_neg (Bool.eq_false_iff.1 noName) (.pure rfl))

/-- The bindings of an import that has some begin with a mark. -/
theorem bindingWords_first {i : Import} (ws : List Word) (binds : i.bindingWords.isEmpty = false) :
    (Word.first (i.bindingWords ++ ws)).kind = .asterisk ∨
      (Word.first (i.bindingWords ++ ws)).kind = .openBrace := by
  rw [Import.bindingWords] at binds ⊢
  split at binds
  · exact .inl rfl
  · split at binds
    · cases binds
    · next full =>
      rw [if_neg full]
      exact .inr rfl

theorem behindName_alone {i : Import} (alone : i.bindingWords.isEmpty = true) :
    i.behindNameWords = [] := by
  rw [Import.behindNameWords, List.isEmpty_iff.1 alone, List.isEmpty_nil, Bool.not_true,
    Bool.and_false]
  rfl

theorem behindName_named {i : Import} (defaultName : i.defaultName = some x)
    (others : i.bindingWords.isEmpty = false) :
    i.behindNameWords = .mark .comma ',' :: i.bindingWords := by
  rw [Import.behindNameWords, defaultName, others]
  rfl

theorem behindName_unnamed {i : Import} (unnamed : i.defaultName = none) :
    i.behindNameWords = i.bindingWords := by
  rw [Import.behindNameWords, unnamed]
  rfl

theorem binds_of_unnamed {i : Import} (binds : i.bindsNothing = false)
    (unnamed : i.defaultName = none) : i.bindingWords.isEmpty = false := by
  rw [Import.bindsNothing, unnamed] at binds
  rw [Import.bindingWords_isEmpty]
  exact binds

theorem defaultName_readsRow {i : Import} (proper : i.Proper) (binds : i.bindsNothing = false) :
    (optionalName .name).ReadsRow c (i.clauseWords ++ ws) (i.behindNameWords ++ ws)
      (IsDefault i) := by
  rw [Import.clauseWords, List.append_assoc]
  cases defaultName : i.defaultName with
  | some x =>
    refine (optionalName_some (proper.defaultName x defaultName)).mono fun ns hns => ?_
    rw [IsDefault, defaultName]
    exact hns
  | none =>
    refine (optionalName_none ?_).mono fun ns hns => ?_
    · show (Word.first (i.behindNameWords ++ ws)).kind.isName = false
      rw [behindName_unnamed defaultName]
      have first := bindingWords_first ws (binds_of_unnamed binds defaultName)
      obtain first | first := first <;> rw [first] <;> rfl
    · rw [IsDefault, defaultName]
      exact hns

theorem otherBindings_readsRow {i : Import} (proper : i.Proper) (binds : i.bindsNothing = false)
    (noComma : (Word.first ws).kind ≠ .comma) :
    (otherBindings i.defaultName.isSome).ReadsRow c (i.behindNameWords ++ ws) ws
      (AreBindings i) := by
  cases defaultName : i.defaultName with
  | some x =>
    refine .ite_pos rfl ?_
    cases alone : i.bindingWords.isEmpty with
    | true =>
      rw [behindName_alone alone]
      refine .andThen (.accept_neg noComma) (.ite_neg Bool.false_ne_true (.pure ?_))
      rw [Import.bindingWords_isEmpty, Bool.and_eq_true, Option.isNone_iff_eq_none] at alone
      rw [AreBindings, alone.1]
      exact if_pos alone.2 ▸ rfl
    | false =>
      rw [behindName_named defaultName alone]
      exact .andThen (.accept_pos rfl) (.ite_pos rfl (namedBindings_readsRow proper alone))
  | none =>
    rw [behindName_unnamed defaultName]
    refine .ite_neg Bool.false_ne_true (namedBindings_readsRow proper ?_)
    exact binds_of_unnamed binds defaultName

theorem marksImport {q : QuoteMark} {i : Import} (proper : i.Proper) (binds : i.bindsNothing = false)
    (isTypeOnly : i.isTypeOnly = true) : MarksImport (i.clauseWords ++ (i.moduleWords q ++ ws)) := by
  rw [Import.clauseWords]
  cases defaultName : i.defaultName with
  | some x =>
    by_cases isFrom : Kind.ofName x = .fromKeyword
    · -- then nothing else is bound, and the `from` in front of the module follows
      have name : i.defaultName = some "from" := by
        rw [defaultName, Kind.eq_of_ofName isFrom rfl]
      obtain ⟨noNamespace, noItems⟩ := proper.notFrom isTypeOnly name
      refine .inr (.inr (.inl ⟨isFrom, ?_⟩))
      have alone : i.bindingWords.isEmpty = true := by
        rw [Import.bindingWords_isEmpty, noNamespace, noItems]
        rfl
      rw [behindName_alone alone]
      rfl
    · exact .inr (.inr (.inr ⟨isFrom, (proper.defaultName x defaultName).kind⟩))
  | none =>
    have first := bindingWords_first (i.moduleWords q ++ ws) (binds_of_unnamed binds defaultName)
    rw [← behindName_unnamed defaultName] at first
    exact first.elim (fun first => .inr (.inl first)) .inl

theorem isTypeImport_readsRow {q : QuoteMark} {i : Import} (proper : i.Proper)
    (binds : i.bindsNothing = false) :
    isTypeImport.ReadsRow c (i.typeWords ++ (i.clauseWords ++ (i.moduleWords q ++ ws)))
      (i.typeWords ++ (i.clauseWords ++ (i.moduleWords q ++ ws))) (· = i.isTypeOnly) := by
  rw [Import.typeWords]
  cases isTypeOnly : i.isTypeOnly with
  | true => exact isTypeImport_marked (marksImport proper binds isTypeOnly)
  | false =>
    refine isTypeImport_unmarked fun isType => ?_
    rw [Import.clauseWords] at isType ⊢
    cases defaultName : i.defaultName with
    | some x =>
      cases alone : i.bindingWords.isEmpty with
      | true =>
        rw [behindName_alone alone]
        exact .inr ⟨rfl, nofun⟩
      | false =>
        rw [behindName_named defaultName alone]
        exact .inl rfl
    | none =>
      -- no import begins with `type` but one that is marked or has this name
      rw [defaultName, behindName_unnamed defaultName] at isType
      have first := bindingWords_first (i.moduleWords q ++ ws) (binds_of_unnamed binds defaultName)
      obtain first | first := first <;> cases first.symm.trans isType

theorem importClause_readsRow {q : QuoteMark} {i : Import} (proper : i.Proper)
    (binds : i.bindsNothing = false) :
    importClause.ReadsRow c (i.typeWords ++ (i.clauseWords ++ (i.moduleWords q ++ ws))) (i.moduleWords q ++ ws)
      fun n => Import.ofClause n i.specifier = i := by
  have skip : (skipIf i.isTypeOnly).ReadsRow c (i.typeWords ++ (i.clauseWords ++ (i.moduleWords q ++ ws)))
      (i.clauseWords ++ (i.moduleWords q ++ ws)) (· = ()) := by
    rw [Import.typeWords]
    cases i.isTypeOnly with
    | true => exact .skipIf_pos
    | false => exact .skipIf_neg
  refine .bind .here fun start _ => .andThen (isTypeImport_readsRow proper binds) (.andThen skip ?_)
  refine .bind (defaultName_readsRow proper binds) fun names hnames => ?_
  rw [hnames.isEmpty_eq, Option.not_isNone]
  refine .bind (otherBindings_readsRow proper binds nofun) fun bindings hbindings => ?_
  refine .bind .node fun n hn => .pure ?_
  exact ofClause_parts proper hnames hbindings hn.2.2 rfl

/-! ### Declarations -/

/-- What a clause begins with. -/
theorem clause_first {i : Import} (binds : i.bindsNothing = false) {k : Kind}
    (first : (Word.first (i.typeWords ++ (i.clauseWords ++ ws))).kind = k) :
    k.isPropertyWord = true ∨ k = .asterisk ∨ k = .openBrace := by
  subst first
  rw [Import.typeWords]
  cases i.isTypeOnly with
  | true => exact .inl rfl
  | false =>
    rw [Import.clauseWords]
    cases defaultName : i.defaultName with
    | some x => exact .inl (Kind.isPropertyWord_ofName x)
    | none =>
      rw [behindName_unnamed defaultName]
      exact .inr (bindingWords_first ws (binds_of_unnamed binds defaultName))

theorem optionalClause_readsRow {q : QuoteMark} {i : Import} (proper : i.Proper)
    (binds : i.bindsNothing = false) :
    optionalClause.ReadsRow c (i.typeWords ++ (i.clauseWords ++ (i.moduleWords q ++ ws)))
      (i.moduleWords q ++ ws).tail fun ns => ∃ clause : Node, ns = [clause.inRole .importClause] ∧
        Import.ofClause clause i.specifier = i := by
  refine .andThen .kind (.ite_neg (fun isString => ?_) ?_)
  · obtain first | first | first := clause_first binds isString <;> cases first
  · refine .bind (importClause_readsRow proper binds) fun clause hclause => ?_
    exact .andThen (.require rfl) (.pure ⟨clause, rfl, hclause⟩)

theorem moduleSpecifier_readsRow {q : QuoteMark} :
    moduleSpecifier.ReadsRow c (.quoted q x :: ws) ws fun n => n.detail = .string x (q == .single) := by
  refine .andThen .kind (.ite_pos rfl (.bind .token fun t ht => .andThen .advance (.pure ?_)))
  exact congrArg₂ Detail.string ht.value ht.singleQuoted

/-- There are no attributes where a statement ends. -/
theorem skipImportAttributes_readsRow (semicolon : (Word.first ws).kind = .semicolon) :
    skipImportAttributes.ReadsRow c ws ws (· = ()) := by
  refine .bind .token fun t ht => .ite_neg ?_ (.pure rfl)
  rw [ht.kind, semicolon]
  exact nofun

/-- The node stands for the words of an import and tells all about it. -/
structure ReadsImport (c : Context) (ws rest : List Word) (q : QuoteMark) (i : Import) (n : Node) :
    Prop where
  kind : n.kind = .importDeclaration
  same : Import.ofNode n = i
  quote : Import.quoteOf n = q
  clause : (n.child? .importClause).isSome = true
  span : ∃ r s, c.known ws.length r ∧ c.known rest.length s ∧ n.span = ⟨r.here, s.lastEnd⟩

theorem ReadsImport.ofParts {w : Word} {rest : List Word} {q : QuoteMark} {i : Import}
    {clause specifier n : Node} {r s : Reading} (hclause : Import.ofClause clause i.specifier = i)
    (hspecifier : specifier.detail = .string i.specifier (q == .single))
    (start : c.known (w :: ws).length r) (stop : c.known rest.length s)
    (hn : n = {
      kind := .importDeclaration, span := ⟨r.here, s.lastEnd⟩
      children := [clause.inRole .importClause, specifier.inRole .moduleSpecifier] }) :
    ReadsImport c (w :: ws) rest q i n := by
  subst hn
  refine ⟨rfl, ?_, ?_, by simp [Node.child?], r, s, start, stop, rfl⟩
  · rw [Import.ofNode_clause rfl, Node.propertyText?, hspecifier]
    exact hclause
  · obtain ⟨role, kind, span, flags, modifiers, detail, marks, lists, children⟩ := specifier
    subst hspecifier
    cases q <;> simp [Import.quoteOf, Node.child?, Node.inRole]

/-- Whatever the first word looks like, it is `import`. -/
theorem importDeclaration_readsRow {w : Word} {q : QuoteMark} {i : Import} (proper : i.Proper)
    (binds : i.bindsNothing = false) (isImport : w.kind = .importKeyword) :
    importDeclaration.ReadsRow c (w :: (i.behindWords q ++ ws)) ws
      (ReadsImport c (w :: (i.behindWords q ++ ws)) ws q i) := by
  rw [Import.behindWords, List.append_assoc, List.append_assoc]
  refine .bind here_known ?_
  rintro _ ⟨r, start, rfl⟩
  refine .andThen (.require isImport) ?_
  refine .bind (optionalClause_readsRow proper binds) ?_
  rintro _ ⟨clause, rfl, hclause⟩
  refine .bind moduleSpecifier_readsRow fun specifier hspecifier => ?_
  refine .andThen (skipImportAttributes_readsRow rfl) (.andThen (endStatement_readsRow rfl) ?_)
  refine .mono node_known fun n hn => ?_
  obtain ⟨s, stop, hn⟩ := hn
  exact .ofParts hclause hspecifier start stop hn

theorem first_noEquals {n : Nat} (noEquals : ∀ w ∈ ws.take (n + 1), w.kind ≠ .equals) :
    ((Word.first (ws.drop n)).kind == .equals) = false := by
  refine beq_false_of_ne ?_
  rw [Word.first, List.head?_drop]
  cases found : ws[n]? with
  | none => exact nofun
  | some w =>
    refine noEquals w (List.mem_of_getElem? (i := n) ?_)
    rw [List.getElem?_take_of_lt (Nat.lt_succ_self n), found]

/-- The rest of the test for `import A =`, behind `import` and `type`. -/
theorem equalsBehind (isType : Bool) (noEquals : ∀ w ∈ ws.take 2, w.kind ≠ .equals) :
    ∃ rest, (do
      if isType && (← kind) == .equals then return true
      else if (← kind).isName then
        advance
        return (← kind) == .equals
      else return false : Parser Bool).ReadsRow c ws rest (· = false) := by
  have first : ((Word.first ws).kind == .equals) = false :=
    first_noEquals (n := 0) fun w mem => noEquals w (List.take_subset_take_left ws (by decide) mem)
  have second : ((Word.first ws.tail).kind == .equals) = false :=
    List.drop_one ▸ first_noEquals (n := 1) noEquals
  have noType : ¬ (isType && (Word.first ws).kind == .equals) = true := by
    rw [first, Bool.and_false]
    exact Bool.false_ne_true
  by_cases isName : (Word.first ws).kind.isName = true
  · refine ⟨ws.tail, .andThen .kind (.ite_neg noType (.andThen .kind (.ite_pos isName ?_)))⟩
    exact .andThen .advance (.andThen .kind (.pure second))
  · exact ⟨ws, .andThen .kind (.ite_neg noType (.andThen .kind (.ite_neg isName (.pure rfl))))⟩

/-- There is no `import A =` where there is no `=` among the first words. -/
theorem isImportEquals_readsRow (noEquals : ∀ w ∈ ws.take 4, w.kind ≠ .equals) :
    isImportEquals.ReadsRow c ws ws (· = false) := by
  have behind {k : Nat} (le : k ≤ 2) : ∀ w ∈ (ws.drop k).take 2, w.kind ≠ .equals := by
    intro w mem
    rw [List.take_drop] at mem
    exact noEquals w (List.take_subset_take_left ws (by omega) (List.mem_of_mem_drop mem))
  have one := List.drop_one ▸ behind (k := 1) (by decide)
  by_cases isType : (Word.first ws.tail).kind = .typeKeyword
  · have two : ∀ w ∈ ws.tail.tail.take 2, w.kind ≠ .equals := by
      rw [← List.drop_one, ← List.drop_one, List.drop_drop]
      exact behind (by decide)
    obtain ⟨rest, h⟩ := equalsBehind (c := { c with trusted := false }) true two
    exact .lookAhead ⟨rest, .andThen .advance (.andThen (.accept_pos isType) h)⟩
  · obtain ⟨rest, h⟩ := equalsBehind (c := { c with trusted := false }) false one
    exact .lookAhead ⟨rest, .andThen .advance (.andThen (.accept_neg isType) h)⟩

theorem name_noEquals (x : String) : (Word.name x).kind ≠ .equals := fun isEquals => by
  have word := Kind.isPropertyWord_ofName x
  rw [show Kind.ofName x = _ from isEquals] at word
  cases word

theorem item_noEquals (i : ImportItem) : ∀ w ∈ i.words, w.kind ≠ .equals := by
  have names : ∀ w ∈ i.nameWords, w.kind ≠ .equals := by
    rw [ImportItem.nameWords, ImportItem.renamedWords]
    cases i.renamed with
    | none => simp [name_noEquals]
    | some x => simp [name_noEquals, Word.keyword]
  rw [ImportItem.words]
  split
  · exact List.forall_mem_cons.2 ⟨by simp [Word.keyword], names⟩
  · exact names

theorem words_noEquals {q : QuoteMark} {i : Import} : ∀ w ∈ i.behindWords q, w.kind ≠ .equals := by
  have bindings : ∀ w ∈ i.bindingWords, w.kind ≠ .equals := by
    rw [Import.bindingWords]
    split
    · simp [name_noEquals, Word.keyword, Word.mark]
    · split
      · simp
      · have items := Word.list_forall (P := fun w => w.kind ≠ .equals) (by simp [Word.mark])
          fun item (_ : item ∈ i.items) => item_noEquals item
        exact List.forall_mem_cons.2
          ⟨by simp [Word.mark], List.forall_mem_append.2 ⟨items, by simp [Word.mark]⟩⟩
  have clause : ∀ w ∈ i.clauseWords, w.kind ≠ .equals := by
    rw [Import.clauseWords, Import.behindNameWords]
    refine List.forall_mem_append.2 ⟨by simp [name_noEquals], ?_⟩
    split
    · exact List.forall_mem_cons.2 ⟨by simp [Word.mark], bindings⟩
    · exact bindings
  have mark : ∀ w ∈ i.typeWords, w.kind ≠ .equals := by
    rw [Import.typeWords]
    split <;> simp [Word.keyword]
  refine List.forall_mem_append.2 ⟨mark, List.forall_mem_append.2 ⟨clause, ?_⟩⟩
  simp [Import.moduleWords, Word.keyword, Word.quoted, Word.mark]

/-- There are at least three words behind `import`, and none of them is `=`. -/
theorem import_noEquals {w : Word} {q : QuoteMark} {i : Import} (isImport : w.kind = .importKeyword) :
    ∀ v ∈ (w :: (i.behindWords q ++ ws)).take 4, v.kind ≠ .equals := by
  have length : 3 ≤ (i.behindWords q).length := by
    simp only [Import.behindWords, List.length_append, Import.moduleWords, List.length_cons]
    omega
  rw [List.take_succ_cons, List.take_append_of_le_length length]
  refine List.forall_mem_cons.2 ⟨by rw [isImport]; exact nofun, fun v mem => ?_⟩
  exact words_noEquals v (List.mem_of_mem_take mem)

theorem importStatement_readsRow {w : Word} {q : QuoteMark} {i : Import} (proper : i.Proper)
    (binds : i.bindsNothing = false) (isImport : w.kind = .importKeyword) :
    statement.ReadsRow c (w :: (i.behindWords q ++ ws)) ws
      (ReadsImport c (w :: (i.behindWords q ++ ws)) ws q i) := by
  refine .bind .here fun start _ => .andThen .kind ?_
  rw [Word.first_cons, isImport]
  refine .bind .here fun start _ => .andThen .nextIs (.ite_neg (fun call => ?_) ?_)
  · rw [List.tail_cons, Import.behindWords, List.append_assoc, List.append_assoc, Bool.or_eq_true,
      beq_iff_eq, beq_iff_eq] at call
    obtain call | call := call
    all_goals obtain first | first | first := clause_first binds call <;> cases first
  · refine .andThen (isImportEquals_readsRow (import_noEquals isImport))
      (.ite_neg Bool.false_ne_true ?_)
    exact importDeclaration_readsRow proper binds isImport

end Parser

/-! ## The import is read back -/

/-- The text of a proper import is a file with one statement, which expresses the import, and nothing
is noted about it. -/
theorem Import.parse_text (path : String) {q : QuoteMark} {i : Import} (proper : i.Proper)
    (binds : i.bindsNothing = false) (line : OneLine i.specifier.toList) :
    ∃ n : Node, (SourceFile.parse path (i.text q)).statements = [n] ∧ n.kind = .importDeclaration ∧
      Import.ofNode n = i ∧ (SourceFile.parse path (i.text q)).notes = [] := by
  have spells : Spells [] (i.text q ++ []) (i.words q ++ []) := Import.spells proper binds line .done
  have reads : Parser.statement.ReadsRow {} (.keyword .importKeyword :: (i.behindWords q ++ [])) [] _ :=
    Parser.importStatement_readsRow proper binds rfl
  rw [List.append_nil, List.append_nil] at spells
  rw [List.append_nil] at reads
  obtain ⟨n, statements, found, notes⟩ := SourceFile.parse_statement path spells rfl reads
  exact ⟨n.inRole .statements, statements, found.kind, found.same, notes⟩

namespace SourceFile

variable {path : String} {text : List Char} {d : Node}

/-- Nothing is missing in the statements of a file without errors. -/
theorem complete_of_mem (clean : (parse path text).hasErrors = false)
    (mem : d ∈ (parse path text).statements) : d.Complete := by
  obtain ⟨last, reads⟩ := reads_statements clean
  obtain ⟨r, s, run, statement⟩ := reads.reads_mem mem
  intro m inner
  obtain ⟨r', s', -, reads'⟩ :=
    statement.reads_of_contains ⟨text, run.sound (Parser.firstReading_sound path text)⟩ inner
  exact reads'.present

/-- Nothing is missing in the nodes of a file without errors. -/
theorem complete_of_contains (clean : (parse path text).hasErrors = false)
    (found : (parse path text).tree.Contains d) (notFile : d.kind ≠ .sourceFile) : d.Complete := by
  cases found with
  | self => exact absurd (parse_tree_kind path text) notFile
  | child mem inner => exact (complete_of_mem clean mem).contained inner

/-- An import declaration that was read without errors, wherever it stands, is printed as a text
which is read, with nothing to note, as one statement: an import declaration that expresses the same
import. Only what names the module must not hold a line feed or carriage return. -/
theorem import_readBack (path' : String) (q : QuoteMark)
    (found : (parse path text).tree.Contains d) (kind : d.kind = .importDeclaration)
    (clean : (parse path text).hasErrors = false ∨ d.Complete)
    (binds : (Import.ofNode d).bindsNothing = false)
    (line : OneLine (Import.ofNode d).specifier.toList) :
    ∃ d' : Node, (parse path' ((Import.ofNode d).text q)).statements = [d'] ∧
      d'.kind = .importDeclaration ∧ Import.ofNode d' = Import.ofNode d ∧
      (parse path' ((Import.ofNode d).text q)).notes = [] := by
  have complete : d.Complete :=
    clean.elim (complete_of_contains · found (by rw [kind]; exact nofun)) id
  exact Import.parse_text _ ((made_of_contains found).imports kind complete) binds line

/-- An import in which `type`, `as` and `from` are names and marks. -/
def contextualNames : List Char :=
  "import type, { type A as as, type as from, type default as of } from './it\\'s';".toList

theorem contextualNames_readBack : ∃ d d' : Node,
    (parse "a.ts" contextualNames).tree.Contains d ∧ d.kind = .importDeclaration ∧
      (parse "a.ts" contextualNames).hasErrors = false ∧ (Import.ofNode d).bindsNothing = false ∧
      OneLine (Import.ofNode d).specifier.toList ∧
      (parse "b.ts" ((Import.ofNode d).text .double)).statements = [d'] ∧
      Import.ofNode d' = Import.ofNode d := by
  obtain ⟨clean, test⟩ : (parse "a.ts" contextualNames).hasErrors = false ∧
      ((parse "a.ts" contextualNames).tree.children.head?.any fun d =>
        d.kind == .importDeclaration && !(Import.ofNode d).bindsNothing &&
          decide (OneLine (Import.ofNode d).specifier.toList)) = true := by
    decide +kernel
  obtain ⟨d, hd, test⟩ := (Option.any_eq_true _ _).1 test
  simp only [Bool.and_eq_true, beq_iff_eq, Bool.not_eq_true', decide_eq_true_eq] at test
  obtain ⟨⟨kind, binds⟩, line⟩ := test
  have found : (parse "a.ts" contextualNames).tree.Contains d :=
    .child (List.mem_of_head? hd) (.self d)
  obtain ⟨d', statements, -, same, -⟩ :=
    import_readBack "b.ts" .double found kind (.inl clean) binds line
  exact ⟨d, d', found, kind, clean, binds, line, statements, same⟩

end SourceFile
end FactorySync
