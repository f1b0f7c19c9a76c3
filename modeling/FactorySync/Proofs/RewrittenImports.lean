import FactorySync.Proofs.ExactImports
import FactorySync.Proofs.PrintedImports

/-!
# Rewritten imports

An import that is replaced is printed from what was read of it, so the text that replaces it is read
as the import it was, without the bindings that nothing uses and with the added names in order
(`Program.reconcileImports_rewritten`). What was not read of it, the attributes behind the name of the
module, is lost (`Program.attributes_lost`).
-/

namespace FactorySync

/-! ## The names that a file mentions -/

namespace Node

variable {text : List Char} {n : Node} {x : String}

theorem AllMade.child {c : Node} (h : n.AllMade text) (mem : c ∈ n.children) : c.AllMade text :=
  fun m inner => h m (.child mem inner)

theorem exportedLocals_words (made : n.AllMade text) (complete : n.Complete)
    (hx : x ∈ n.exportedLocals) : IsWord x := by
  unfold exportedLocals at hx
  split at hx
  · cases hx
  obtain ⟨clause, hclause, hx⟩ := List.mem_flatMap.1 hx
  obtain ⟨mem, kind⟩ := List.mem_filter.1 hclause
  have mem : clause ∈ n.children := (List.mem_filter.1 mem).1
  refine ((made.child mem) clause (.self _)).mentions (complete.child mem) x ?_
  rw [ownNames, beq_iff_eq.1 kind]
  exact hx

/-- The name of a node that is a name is a word. -/
theorem firstName_word (made : n.AllMade text) (complete : n.Complete)
    (isName : n.kind = .identifier ∨ n.kind = .qualifiedName) : IsWord n.firstName := by
  refine (made n (.self n)).mentions complete _ ?_
  obtain kind | kind := isName
  all_goals
    rw [ownNames, kind]
    exact .head _

mutual

/-- The names that are mentioned inside a node, unless it was passed over, are words. -/
theorem mentions_words (n : Node) (made : n.AllMade text) (complete : n.Complete) :
    ∀ m ∈ n.mentions, m.usage ≠ .skipped → IsWord m.name := by
  match n with
  | { role, kind, span, flags, modifiers, detail, marks, lists, children } =>
    intro m hm notSkipped
    rw [mentions.eq_def] at hm
    dsimp only at hm
    split at hm
    · cases hm
    · obtain ⟨x, hx, rfl⟩ := List.mem_map.1 hm
      exact exportedLocals_words made complete hx
    · obtain ⟨c, -, rfl⟩ := List.mem_map.1 hm
      exact absurd rfl notSkipped
    · exact mentionsIn_words _ children (fun c mem => made.child mem)
        (fun c mem => complete.child mem) m hm notSkipped

theorem mentionsIn_words (n : Node) (cs : List Node) (made : ∀ c ∈ cs, c.AllMade text)
    (complete : ∀ c ∈ cs, c.Complete) :
    ∀ m ∈ n.mentionsIn cs, m.usage ≠ .skipped → IsWord m.name := by
  match cs with
  | [] => exact nofun
  | c :: cs =>
    obtain ⟨madeFirst, made⟩ := List.forall_mem_cons.1 made
    obtain ⟨completeFirst, complete⟩ := List.forall_mem_cons.1 complete
    have inside := mentions_words c madeFirst completeFirst
    have behind := mentionsIn_words n cs made complete
    rw [mentionsIn]
    refine List.forall_mem_append.2 ⟨fun m hm => ?_, behind⟩
    split at hm
    · next isName =>
      obtain ⟨m', hm', rfl⟩ := List.mem_map.1 hm
      obtain ⟨usage, -, rfl⟩ := List.mem_map.1 hm'
      exact fun _ => firstName_word madeFirst completeFirst isName
    · obtain ⟨m', hm', rfl⟩ := List.mem_map.1 hm
      exact inside m' hm'

end

end Node

/-- What a file without errors needs from elsewhere is spelled like a name. -/
theorem SourceFile.isWord_of_free {path : String} {text : List Char} {x : String}
    (clean : (parse path text).hasErrors = false) (hx : x ∈ (parse path text).references.free) :
    IsWord x := by
  obtain ⟨m, hm, notSkipped, rfl, -⟩ := (mem_free (parse_tree_kind path text)).1 hx
  have made (c : Node) (mem : c ∈ (parse path text).statements) : c.AllMade text :=
    fun _ inner => made_of_contains (.child mem inner)
  exact Node.mentionsIn_words _ _ made (fun c mem => complete_of_mem clean mem) m hm notSkipped

/-! ## What replaces an import -/

/-- What stands behind the name of the module in an import declaration. -/
def Node.behindModule (text : List Char) (n : Node) : List Char :=
  match n.child? .moduleSpecifier with
  | some specifier => Span.slice ⟨specifier.span.stop, n.span.stop⟩ text
  | none => []

namespace Import

variable {i : Import}

/-- Nothing stands behind the name of the module but the end of the statement. -/
theorem text_ends (i : Import) (q : QuoteMark) :
    ∃ front : List Char, i.text q = front ++ (q.quoted i.specifier.toList ++ [';']) :=
  ⟨_, List.append_assoc _ _ _⟩

/-- An import that loses bindings stays proper. -/
theorem Proper.restrict (h : i.Proper) (used : String → Bool) : (i.restrict used).Proper where
  defaultName x hx := h.defaultName x (Option.mem_filter_iff.1 hx).1
  namespaceName x hx := h.namespaceName x (Option.mem_filter_iff.1 hx).1
  items item mem := h.items item (List.mem_filter.1 mem).1
  single hasNamespace :=
    List.filter_eq_nil_iff.2 (by simp [h.single (Option.isSome_of_isSome_filter _ _ hasNamespace)])
  notFrom isTypeOnly isFrom := by
    obtain ⟨noNamespace, noItems⟩ := h.notFrom isTypeOnly (Option.eq_some_of_filter_eq_some isFrom)
    simp [Import.restrict, noNamespace, noItems]

end Import

namespace ImportPlan

variable {plan : ImportPlan}

theorem sortedItems_proper {names : List String} (words : ∀ x ∈ names, IsWord x) :
    ∀ item ∈ sortedItems names, item.Proper := by
  intro item mem
  obtain ⟨x, hx, rfl⟩ := List.mem_map.1 mem
  exact ⟨words x ((List.mergeSort_perm ..).mem_iff.1 hx), nofun, nofun⟩

theorem sortedItems_eq_nil {names : List String} : sortedItems names = [] ↔ names = [] := by
  rw [sortedItems, List.map_eq_nil_iff, ← List.length_eq_zero_iff, List.length_mergeSort,
    List.length_eq_zero_iff]

/-- Names are only added to an import that takes them, so the outcome is proper. -/
theorem result_proper (kept : plan.kept.Proper) (accepts : plan.added ≠ [] → plan.acceptsNames = true)
    (words : ∀ x ∈ plan.added, IsWord x) : plan.result.Proper := by
  by_cases added : plan.added = []
  · have same : plan.result = plan.kept := by simp [result, added, sortedItems]
    exact same ▸ kept
  · have accepts := accepts added
    simp only [acceptsNames, Bool.and_eq_true, Bool.not_eq_true', Option.isNone_iff_eq_none] at accepts
    refine ⟨kept.defaultName, kept.namespaceName, ?_, fun hasNamespace => ?_, fun isTypeOnly => ?_⟩
    · exact List.forall_mem_append.2 ⟨kept.items, sortedItems_proper words⟩
    · rw [show plan.result.namespaceName = _ from accepts.2] at hasNamespace
      cases hasNamespace
    · rw [show plan.result.isTypeOnly = _ from accepts.1.2] at isTypeOnly
      cases isTypeOnly

/-- An import that is replaced still binds something. -/
theorem result_binds (replaced : plan.fate = .replaced) : plan.result.bindsNothing = false := by
  have items : plan.result.items.isEmpty = (plan.kept.items.isEmpty && plan.added.isEmpty) := by
    rw [Bool.eq_iff_iff, Bool.and_eq_true]
    simp [result, sortedItems_eq_nil]
  have binds : plan.result.bindsNothing = (plan.kept.bindsNothing && plan.added.isEmpty) := by
    rw [Import.bindsNothing, items, ← Bool.and_assoc]
    rfl
  rw [binds, Bool.and_eq_false_iff]
  unfold fate at replaced
  split at replaced
  · next added => exact .inr (Bool.eq_false_iff.2 added)
  · split at replaced
    · cases replaced
    · split at replaced
      · cases replaced
      · next binds => exact .inl (Bool.eq_false_iff.2 binds)

end ImportPlan

namespace ImportDraft

variable {p : Program} {file exporter : FileId} {f : SourceFile} {d : ImportDraft} {x : String}

/-- Names are added to imports that take names. -/
def Accepting (d : ImportDraft) : Prop :=
  ∀ plan ∈ d.plans, plan.added ≠ [] → plan.acceptsNames = true

theorem Accepting.add (h : d.Accepting) : (d.add p file exporter x).Accepting := by
  unfold ImportDraft.add
  dsimp only
  split
  · next i hi =>
    obtain ⟨lt, takes, -⟩ := List.findIdx?_eq_some_iff_getElem.1 hi
    rw [Bool.and_eq_true] at takes
    intro plan hplan added
    obtain ⟨j, hj⟩ := List.mem_iff_getElem?.1 hplan
    rw [List.getElem?_modify] at hj
    obtain ⟨before, hbefore, rfl⟩ := Option.map_eq_some_iff.1 hj
    split at added
    · next here =>
      subst here
      rw [List.getElem?_eq_getElem lt, Option.some_inj] at hbefore
      rw [if_pos rfl, ← hbefore]
      exact takes.1
    · next elsewhere =>
      rw [if_neg elsewhere]
      exact h before (List.mem_of_getElem? hbefore) added
  · exact h

theorem accepting (p : Program) (file : FileId) (f : SourceFile) : (ofProgram p file f).Accepting := by
  refine ofProgram_induction (fun plan hplan added => ?_) fun _ h => h.add
  obtain ⟨n, -, rfl⟩ := List.mem_map.1 hplan
  exact absurd rfl added

/-- An import that is replaced has a proper outcome, which binds something. -/
theorem result_of_replaced {path : String} {text : List Char} {plan : ImportPlan}
    (clean : (SourceFile.parse path text).hasErrors = false)
    (hplan : plan ∈ (ofProgram p file (.parse path text)).plans) (replaced : plan.fate = .replaced) :
    plan.result.Proper ∧ plan.result.bindsNothing = false := by
  obtain ⟨hnode, hkept⟩ := exists_ofNode hplan
  obtain ⟨mem, kind⟩ := List.mem_filter.1 hnode
  have found : (SourceFile.parse path text).tree.Contains plan.node := .child mem (.self _)
  have proper := (SourceFile.made_of_contains found).imports (beq_iff_eq.1 kind)
    (SourceFile.complete_of_mem clean mem)
  refine ⟨ImportPlan.result_proper (hkept ▸ proper.restrict _) (accepting p file _ plan hplan)
    fun x hx => ?_, ImportPlan.result_binds replaced⟩
  exact SourceFile.isWord_of_free clean (mem_added.1 (added_mem hplan hx)).1

end ImportDraft

namespace Program

/-- An import declaration of a file without errors that is replaced is replaced by a text that ends
with the name of the module. If that holds no line feed or carriage return the text is read, with
nothing to note, as one import declaration of the same module with the same mark: it has the default
name and the namespace if they are used, the items that are used, and behind them the added names in
order. -/
theorem reconcileImports_rewritten (p : Program) (file : FileId) (path' : String) {path : String}
    {text : List Char} {plan : ImportPlan} (clean : (SourceFile.parse path text).hasErrors = false)
    (hplan : plan ∈ (ImportDraft.ofProgram p file (.parse path text)).plans)
    (replaced : plan.fate = .replaced) :
    ∃ out front : List Char,
      .replace plan.node.span out ∈ (ImportDraft.ofProgram p file (.parse path text)).edits text ∧
      out = front ++ ((Import.quoteOf plan.node).quoted (Import.ofNode plan.node).specifier.toList ++
        [';']) ∧
      (OneLine (Import.ofNode plan.node).specifier.toList → ∃ d,
        (SourceFile.parse path' out).statements = [d] ∧ d.kind = .importDeclaration ∧
        (SourceFile.parse path' out).notes = [] ∧
        (Import.ofNode d).specifier = (Import.ofNode plan.node).specifier ∧
        (Import.ofNode d).isTypeOnly = (Import.ofNode plan.node).isTypeOnly ∧
        (Import.ofNode d).defaultName =
          (Import.ofNode plan.node).defaultName.filter (SourceFile.parse path text).references.uses ∧
        (Import.ofNode d).namespaceName =
          (Import.ofNode plan.node).namespaceName.filter
            (SourceFile.parse path text).references.uses ∧
        (Import.ofNode d).items =
          (Import.ofNode plan.node).items.filter
            (fun item => (SourceFile.parse path text).references.uses item.localName) ++
          ImportPlan.sortedItems plan.added) := by
  obtain ⟨proper, binds⟩ := ImportDraft.result_of_replaced clean hplan replaced
  obtain ⟨-, hkept⟩ := ImportDraft.exists_ofNode hplan
  have kept : plan.kept =
      (Import.ofNode plan.node).restrict (SourceFile.parse path text).references.uses := hkept
  have result : plan.result = { plan.kept with
      items := plan.kept.items ++ ImportPlan.sortedItems plan.added } := rfl
  rw [kept] at result
  obtain ⟨front, hfront⟩ := plan.result.text_ends (Import.quoteOf plan.node)
  refine ⟨plan.result.text (Import.quoteOf plan.node), front, ?_, ?_, fun line => ?_⟩
  · refine List.mem_append_left _ (List.mem_filterMap.2 ⟨plan, hplan, ?_⟩)
    rw [ImportPlan.edit?, replaced]
  · rw [hfront, show plan.result.specifier = _ from congrArg Import.specifier result]
    rfl
  · obtain ⟨d, statements, kind, same, notes⟩ :=
      Import.parse_text path' (q := Import.quoteOf plan.node) proper binds (result ▸ line)
    refine ⟨d, statements, kind, notes, ?_⟩
    rw [same, result]
    exact ⟨rfl, rfl, rfl, rfl, rfl⟩

/-- Of this import two bindings are used: one is marked and renamed, the name of the other one is
`as`. -/
def halfUsed : String :=
  "import D, \x7b type A as B, as as C, E \x7d from 'it\\'s';\nlet x: B = C;"

theorem halfUsed_rewritten :
    (SourceFile.parse "t.ts" halfUsed.toList).hasErrors = false ∧
    ∃ plan ∈ (ImportDraft.ofProgram (ofTexts "" halfUsed) 1 (.parse "t.ts" halfUsed.toList)).plans,
      plan.fate = .replaced ∧ OneLine (Import.ofNode plan.node).specifier.toList ∧ ∃ out d,
        .replace plan.node.span out ∈ (ImportDraft.ofProgram (ofTexts "" halfUsed) 1
          (.parse "t.ts" halfUsed.toList)).edits halfUsed.toList ∧
        (SourceFile.parse "t.ts" out).statements = [d] ∧
        (Import.ofNode d).specifier = (Import.ofNode plan.node).specifier ∧
        (Import.ofNode d).items = (Import.ofNode plan.node).items.filter (fun item =>
          (SourceFile.parse "t.ts" halfUsed.toList).references.uses item.localName) ++
            ImportPlan.sortedItems plan.added := by
  obtain ⟨clean, test⟩ : (SourceFile.parse "t.ts" halfUsed.toList).hasErrors = false ∧
      ((ImportDraft.ofProgram (ofTexts "" halfUsed) 1
        (.parse "t.ts" halfUsed.toList)).plans.any fun plan => plan.fate == .replaced &&
          decide (OneLine (Import.ofNode plan.node).specifier.toList)) = true := by
    decide +kernel
  obtain ⟨plan, hplan, test⟩ := List.any_eq_true.1 test
  rw [Bool.and_eq_true, beq_iff_eq, decide_eq_true_eq] at test
  obtain ⟨replaced, line⟩ := test
  obtain ⟨out, -, edit, -, reads⟩ :=
    reconcileImports_rewritten (ofTexts "" halfUsed) 1 "t.ts" clean hplan replaced
  obtain ⟨d, statements, -, -, specifier, -, -, -, items⟩ := reads line
  exact ⟨clean, plan, hplan, replaced, line, out, d, edit, statements, specifier, items⟩

/-! ## What is lost -/

/-- An import with attributes, of which one name is used. -/
def attributed : String := "import \x7b A, B \x7d from './x' with \x7b type: 'json' \x7d;\nA;"

/-- The attributes go with the name that nothing uses. -/
theorem attributes_lost :
    (SourceFile.parse "t.ts" attributed.toList).hasErrors = false ∧
    ∃ plan ∈ (ImportDraft.ofProgram (ofTexts "export const A = 1, B = 2" attributed) 1
        (.parse "t.ts" attributed.toList)).plans, ∃ out d,
      .replace plan.node.span out ∈ (ImportDraft.ofProgram
        (ofTexts "export const A = 1, B = 2" attributed) 1
        (.parse "t.ts" attributed.toList)).edits attributed.toList ∧
      plan.node.behindModule attributed.toList = " with \x7b type: 'json' \x7d;".toList ∧
      (SourceFile.parse "t.ts" out).statements = [d] ∧ d.behindModule out = [';'] := by
  obtain ⟨clean, test⟩ : (SourceFile.parse "t.ts" attributed.toList).hasErrors = false ∧
      ((ImportDraft.ofProgram (ofTexts "export const A = 1, B = 2" attributed) 1
        (.parse "t.ts" attributed.toList)).plans.any fun plan => plan.fate == .replaced &&
          plan.node.behindModule attributed.toList == " with \x7b type: 'json' \x7d;".toList &&
          ((SourceFile.parse "t.ts" (plan.result.text (Import.quoteOf plan.node))).statements.map
            (·.behindModule (plan.result.text (Import.quoteOf plan.node)))) == [[';']]) = true := by
    decide +kernel
  obtain ⟨plan, hplan, test⟩ := List.any_eq_true.1 test
  simp only [Bool.and_eq_true, beq_iff_eq] at test
  obtain ⟨⟨replaced, before⟩, after⟩ := test
  obtain ⟨d, statements, behind⟩ := List.map_eq_singleton_iff.1 after
  refine ⟨clean, plan, hplan, _, d, ?_, before, statements, behind⟩
  refine List.mem_append_left _ (List.mem_filterMap.2 ⟨plan, hplan, ?_⟩)
  rw [ImportPlan.edit?, replaced]

end Program

end FactorySync
