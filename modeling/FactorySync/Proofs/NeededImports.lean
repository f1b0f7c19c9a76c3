import FactorySync.Proofs.ImportEdits
import FactorySync.Proofs.Mentions

/-!
# Which imports go and which come

Both are told by the mentions of the file. The binding of an import goes exactly if the walk takes
every mention of its name for bound (`Program.reconcileImports_removed_iff`), and only names come
that have a mention that the walk does not take for bound (`Program.reconcileImports_added_iff`).

The walk and the rules of the language differ in two ways, and each of them has its examples here. A
scope that is too wide hides a mention, so that an import goes that is needed
(`inferredBefore_removed`). A binding without a scope hides nothing, so that an import comes that is
not needed (`initializedByMember_added`).
-/

namespace FactorySync

variable {x : String}

/-! ## What is planned -/

theorem Import.restrict_localNames (used : String → Bool) (i : Import) :
    (i.restrict used).localNames = i.localNames.filter used := by
  have optional (name : Option String) : (name.filter used).toList = name.toList.filter used := by
    cases name <;> simp [Option.filter_some, List.filter_cons]
    split <;> rfl
  simp [localNames, restrict, optional, List.filter_map, Function.comp_def]

namespace ImportPlan

theorem mem_kept {r : References} {n : Node} : x ∈ (ofNode r n).kept.localNames ↔
    x ∈ (Import.ofNode n).localNames ∧ r.uses x = true := by
  simp only [ofNode, Import.restrict_localNames, List.mem_filter]

theorem mem_dropped {r : References} {n : Node} : x ∈ (ofNode r n).dropped ↔
    x ∈ (Import.ofNode n).localNames ∧ r.uses x = false := by
  have kept := mem_kept (x := x) (r := r) (n := n)
  simp only [ofNode] at kept ⊢
  simp only [List.mem_filter, List.contains_eq_mem, Bool.not_eq_true', decide_eq_false_iff_not,
    kept]
  grind

end ImportPlan

namespace ImportDraft

variable {p : Program} {file : FileId} {f : SourceFile}

/-- Every plan starts from an import of the file. -/
theorem exists_ofNode {plan : ImportPlan} (h : plan ∈ (ofProgram p file f).plans) :
    plan.node ∈ f.imports ∧ plan.kept = (ImportPlan.ofNode f.references plan.node).kept := by
  -- names are added to the plans, which changes neither their imports nor what they keep
  have same := ofProgram_map (g := fun plan => (plan.node, plan.kept)) (fun _ _ => rfl) p file f
  have hmem := List.mem_map_of_mem (f := fun plan : ImportPlan => (plan.node, plan.kept)) h
  rw [same] at hmem
  obtain ⟨n, hn, heq⟩ := List.mem_map.1 hmem
  obtain ⟨hnode, hkept⟩ := Prod.mk.inj heq
  have hnode : n = plan.node := hnode
  subst hnode
  exact ⟨hn, hkept.symm⟩

theorem mem_removed : x ∈ (ofProgram p file f).removed ↔
    (∃ n ∈ f.imports, x ∈ (Import.ofNode n).localNames) ∧ f.references.uses x = false := by
  have same := ofProgram_map (g := (·.dropped)) (fun _ _ => rfl) p file f
  rw [removed, List.flatMap_def, same, ← List.flatMap_def]
  simp only [List.mem_flatMap, ImportPlan.mem_dropped]
  grind

theorem mem_available : x ∈ (ofFile f).available ↔
    (∃ n ∈ f.imports, x ∈ (Import.ofNode n).localNames) ∧ f.references.uses x = true := by
  simp only [available, ofFile, List.flatMap_map, List.mem_flatMap, ImportPlan.mem_kept]
  grind

theorem add_added (exporter : FileId) (name : String) (d : ImportDraft) :
    (d.add p file exporter name).added = d.added ++ [name] := by
  unfold add
  dsimp only
  split <;> rfl

theorem addAll_added (names : List String) (d : ImportDraft) : (d.addAll p file names).added =
    d.added ++ names.filter fun name => (exporter? p file name).isSome := by
  induction names generalizing d with
  | nil => simp [addAll]
  | cons name names ih =>
    rw [addAll, List.foldl_cons, ← addAll, ih]
    cases h : exporter? p file name with
    | none => simp [h]
    | some exporter => simp [h, add_added]

/-- The names to be imported are the free ones that no import binds and some file exports. -/
theorem mem_added : x ∈ (ofProgram p file f).added ↔ x ∈ f.references.free ∧
    (∀ n ∈ f.imports, x ∉ (Import.ofNode n).localNames) ∧ (exporter? p file x).isSome = true := by
  have used (free : x ∈ f.references.free) : f.references.uses x = true := by
    simp [References.uses, free]
  have start : (ofFile f).added = [] := rfl
  simp only [ofProgram_eq, addAll_added, start, List.nil_append, List.mem_filter,
    Bool.not_eq_true', List.contains_eq_mem, decide_eq_false_iff_not, mem_available]
  grind

theorem firstLeast_isSome {α : Type} {measure : α → Nat} {l : List α} :
    (firstLeast measure l).isSome = true ↔ l ≠ [] := by
  cases l with
  | nil => simp [firstLeast]
  | cons a l =>
    rw [firstLeast]
    split
    · simp
    · split <;> simp

end ImportDraft

namespace Program

variable {p : Program} {file : FileId} {f : SourceFile} {path : String} {text : List Char}

/-- A file that passes nothing on exports what it declares as exported. -/
theorem resolveExport?_isSome (closed : ∀ m ∈ p.modules, m.reexports = [])
    (hfile : file < p.files.length) : (p.resolveExport? file x).isSome =
      (p.module? file).any (·.exportsOwn x) := by
  obtain ⟨n, hn⟩ : ∃ n, p.searchAllowance = n + 1 :=
    Nat.exists_eq_succ_of_ne_zero
      (Nat.ne_of_gt (Nat.mul_pos (Nat.zero_lt_of_lt hfile) (Nat.succ_pos _)))
  rw [resolveExport?, hn, Search.firstAnswer, Search.run, if_neg List.not_mem_nil]
  cases hm : p.module? file with
  | none => simp [exportSteps, hm, Search.run]
  | some m =>
    have none := closed m (List.mem_of_getElem? hm)
    cases own : m.exportsOwn x <;> simp [exportSteps, hm, own, none, Search.run]

theorem exporters_eq (closed : ∀ m ∈ p.modules, m.reexports = []) (except : FileId) :
    p.exporters x except = (List.range p.files.length).filter fun id =>
      id != except && (p.module? id).any (·.exportsOwn x) := by
  refine List.filter_congr fun id hid => ?_
  rw [resolveExport?_isSome closed (List.mem_range.1 hid)]

/-! ## Mentions decide -/

theorem reconcileImports_eq_ok {change : ImportChange} :
    p.reconcileImports file f = .ok change ↔
      Edit.applyAll f.text ((ImportDraft.ofProgram p file f).edits f.text) = .ok change.text ∧
        change.added = (ImportDraft.ofProgram p file f).added ∧
        change.removed = (ImportDraft.ofProgram p file f).removed := by
  simp only [reconcileImports, bind_eq_ok]
  constructor
  · rintro ⟨out, hout, h⟩
    cases h
    exact ⟨hout, rfl, rfl⟩
  · rintro ⟨hout, hadded, hremoved⟩
    exact ⟨change.text, hout, by rw [← hadded, ← hremoved]; rfl⟩

/-- The binding of an import goes exactly if the walk takes every mention of its name for bound, and
all other bindings stay in their imports. So it stays if a mention is free, unless something stands
around that mention that binds the name, but not there. -/
theorem reconcileImports_removed_iff (p : Program) (file : FileId)
    (clean : (SourceFile.parse path text).hasErrors = false) :
    ∃ change, p.reconcileImports file (.parse path text) = .ok change ∧
      (∀ x, x ∈ change.removed ↔
        (∃ n ∈ (SourceFile.parse path text).imports, x ∈ (Import.ofNode n).localNames) ∧
        ∀ m ∈ (SourceFile.parse path text).mentions, m.name = x → m.Heeded (.parse path text)) ∧
      (∀ m ∈ (SourceFile.parse path text).mentions, m.IsFree (.parse path text) →
        (∀ b, ¬ m.Overreached b) → m.name ∉ change.removed) ∧
      ∀ plan ∈ (ImportDraft.ofProgram p file (.parse path text)).plans, ∀ x,
        x ∈ plan.kept.localNames ↔
          x ∈ (Import.ofNode plan.node).localNames ∧ x ∉ change.removed := by
  obtain ⟨change, hchange⟩ := p.reconcileImports_isOk file clean
  obtain ⟨-, -, removed⟩ := reconcileImports_eq_ok.1 hchange
  have removed_iff (x : String) : x ∈ change.removed ↔
      (∃ n ∈ (SourceFile.parse path text).imports, x ∈ (Import.ofNode n).localNames) ∧
      ∀ m ∈ (SourceFile.parse path text).mentions, m.name = x → m.Heeded (.parse path text) := by
    rw [removed, ImportDraft.mem_removed, ← Bool.not_eq_true,
      SourceFile.uses_iff (SourceFile.parse_tree_kind path text)]
    simp only [not_exists, not_and, Classical.not_not]
  refine ⟨change, hchange, removed_iff, fun m hm free narrow gone => ?_, fun plan hplan x => ?_⟩
  · exact free.not_heeded narrow (((removed_iff m.name).1 gone).2 m hm rfl)
  · obtain ⟨hnode, hkept⟩ := ImportDraft.exists_ofNode hplan
    rw [removed, ImportDraft.mem_removed, hkept, ImportPlan.mem_kept]
    have bound (h : x ∈ (Import.ofNode plan.node).localNames) :
        ∃ n ∈ (SourceFile.parse path text).imports, x ∈ (Import.ofNode n).localNames :=
      ⟨plan.node, hnode, h⟩
    grind

/-- Names come exactly if they are free, no import binds them and another file exports them; and a
name is free exactly if it has a mention, not in a skipped statement, that the walk does not take
for bound. So a name that comes has a mention that nothing captures, unless one of its mentions is
captured by a binding without a scope. -/
theorem reconcileImports_added_iff (p : Program) (file : FileId)
    (clean : (SourceFile.parse path text).hasErrors = false) :
    ∃ change, p.reconcileImports file (.parse path text) = .ok change ∧
      (∀ x, x ∈ change.added ↔ x ∈ (SourceFile.parse path text).references.free ∧
        (∀ n ∈ (SourceFile.parse path text).imports, x ∉ (Import.ofNode n).localNames) ∧
        p.exporters x file ≠ []) ∧
      (∀ x, x ∈ (SourceFile.parse path text).references.free ↔
        ∃ m ∈ (SourceFile.parse path text).mentions,
          m.usage ≠ .skipped ∧ m.name = x ∧ ¬ m.Heeded (.parse path text)) ∧
      ∀ x ∈ change.added,
        (∀ m ∈ (SourceFile.parse path text).mentions, m.name = x → ∀ b : Binding,
          m.Captured (.parse path text) b → b.isHeeded = true) →
        ∃ m ∈ (SourceFile.parse path text).mentions,
          m.usage ≠ .skipped ∧ m.name = x ∧ m.IsFree (.parse path text) := by
  obtain ⟨change, hchange⟩ := p.reconcileImports_isOk file clean
  obtain ⟨-, added, -⟩ := reconcileImports_eq_ok.1 hchange
  have free_iff (x : String) := SourceFile.mem_free (x := x) (SourceFile.parse_tree_kind path text)
  refine ⟨change, hchange, fun x => ?_, free_iff, fun x hx heeded => ?_⟩
  · rw [added, ImportDraft.mem_added, ImportDraft.exporter?, ImportDraft.firstLeast_isSome]
  · rw [added, ImportDraft.mem_added] at hx
    obtain ⟨m, hm, notSkipped, name, loose⟩ := (free_iff x).1 hx.1
    exact ⟨m, hm, notSkipped, name, Mention.isFree_of_not_heeded loose (heeded m hm name)⟩

/-! ## Where the walk and the language part -/

/-- A program of two files. -/
def ofTexts (x t : String) : Program :=
  .ofFiles [.parse "x.ts" x.toList, .parse "t.ts" t.toList]

/-- An import of two names, one of which is used. -/
def singleUse : String := "import \x7b R, S \x7d from './x'\ntype T = S"

theorem singleUse_read : (SourceFile.parse "t.ts" singleUse.toList).hasErrors = false ∧
    ((SourceFile.parse "t.ts" singleUse.toList).imports.map fun n => (Import.ofNode n).localNames) =
      [["R", "S"]] ∧
    (∀ m ∈ (SourceFile.parse "t.ts" singleUse.toList).mentions, m.name ≠ "R") ∧
    ∃ m ∈ (SourceFile.parse "t.ts" singleUse.toList).mentions,
      m.name = "S" ∧ m.IsFree (.parse "t.ts" singleUse.toList) ∧ ∀ b, ¬ m.Overreached b := by
  decide +kernel

/-- The name that is not used goes, and the other one is all that its import keeps. -/
theorem singleUse_reconciled : (SourceFile.parse "t.ts" singleUse.toList).hasErrors = false ∧
    ∃ change, (ofTexts "" singleUse).reconcileImports 1 (.parse "t.ts" singleUse.toList) =
        .ok change ∧
      "R" ∈ change.removed ∧ "S" ∉ change.removed ∧
      ∀ plan ∈ (ImportDraft.ofProgram (ofTexts "" singleUse) 1
          (.parse "t.ts" singleUse.toList)).plans,
        "R" ∉ plan.kept.localNames ∧
          ("S" ∈ (Import.ofNode plan.node).localNames → "S" ∈ plan.kept.localNames) := by
  obtain ⟨clean, names, unused, m, hm, name, free, narrow⟩ := singleUse_read
  obtain ⟨change, hchange, removed_iff, stays, kept_iff⟩ :=
    reconcileImports_removed_iff (ofTexts "" singleUse) 1 clean
  obtain ⟨n, imports, same⟩ := List.map_eq_singleton_iff.1 names
  have removed : "R" ∈ change.removed :=
    (removed_iff "R").2 ⟨⟨n, by simp [imports], by simp [same]⟩,
      fun m hm name => absurd name (unused m hm)⟩
  have kept : "S" ∉ change.removed := name ▸ stays m hm free narrow
  exact ⟨clean, change, hchange, removed, kept, fun plan hplan =>
    ⟨fun mem => ((kept_iff plan hplan "R").1 mem).2 removed,
      fun mem => (kept_iff plan hplan "S").2 ⟨mem, kept⟩⟩⟩

/-- What `infer` introduces holds in one branch of a conditional type only. In the other branch an
imported type is meant, but the walk takes it for bound. -/
def inferredBefore : String := "import \x7b R \x7d from './x'\ntype T = 1 extends infer R ? 1 : R"

theorem inferredBefore_read : (SourceFile.parse "t.ts" inferredBefore.toList).hasErrors = false ∧
    (∃ m ∈ (SourceFile.parse "t.ts" inferredBefore.toList).mentions,
      m.name = "R" ∧ m.IsFree (.parse "t.ts" inferredBefore.toList)) ∧
    (∃ n ∈ (SourceFile.parse "t.ts" inferredBefore.toList).imports,
      "R" ∈ (Import.ofNode n).localNames) ∧
    (SourceFile.parse "t.ts" inferredBefore.toList).references.uses "R" = false := by
  decide +kernel

/-- The import goes although a mention of its name is free. -/
theorem inferredBefore_removed :
    (SourceFile.parse "t.ts" inferredBefore.toList).hasErrors = false ∧
    (∃ m ∈ (SourceFile.parse "t.ts" inferredBefore.toList).mentions,
      m.name = "R" ∧ m.IsFree (.parse "t.ts" inferredBefore.toList)) ∧
    ∃ change, (ofTexts "export type R = 1" inferredBefore).reconcileImports 1
        (.parse "t.ts" inferredBefore.toList) = .ok change ∧ "R" ∈ change.removed := by
  obtain ⟨clean, free, imported, unused⟩ := inferredBefore_read
  obtain ⟨change, hchange⟩ :=
    (ofTexts "export type R = 1" inferredBefore).reconcileImports_isOk 1 clean
  obtain ⟨-, -, removed⟩ := reconcileImports_eq_ok.1 hchange
  refine ⟨clean, free, change, hchange, ?_⟩
  rw [removed, ImportDraft.mem_removed]
  exact ⟨imported, unused⟩

theorem mem_exporters_ofTexts {exporting reading : String}
    (closed : ∀ m ∈ (ofTexts exporting reading).modules, m.reexports = [])
    (own : ((ofTexts exporting reading).module? 0).any (·.exportsOwn x) = true) :
    0 ∈ (ofTexts exporting reading).exporters x 1 := by
  rw [exporters_eq closed, List.mem_filter, own]
  exact ⟨by simp [ofTexts, ofFiles], rfl⟩

/-- A file that exports a name, and one that reads it and another one. -/
def exportedBeside : String × String := ("export const A = 1", "A; B")

theorem exportedBeside_read :
    (SourceFile.parse "t.ts" exportedBeside.2.toList).hasErrors = false ∧
    (SourceFile.parse "t.ts" exportedBeside.2.toList).imports.isEmpty = true ∧
    (SourceFile.parse "t.ts" exportedBeside.2.toList).references.free = ["A", "B"] ∧
    (∀ m ∈ (ofTexts exportedBeside.1 exportedBeside.2).modules, m.reexports = []) ∧
    ((ofTexts exportedBeside.1 exportedBeside.2).module? 0).any (·.exportsOwn "A") = true ∧
    ((ofTexts exportedBeside.1 exportedBeside.2).module? 0).any (·.exportsOwn "B") = false := by
  decide +kernel

/-- Both names are free, and an import of the one that another file exports is added. -/
theorem exportedBeside_reconciled :
    (SourceFile.parse "t.ts" exportedBeside.2.toList).hasErrors = false ∧
    ∃ change, (ofTexts exportedBeside.1 exportedBeside.2).reconcileImports 1
        (.parse "t.ts" exportedBeside.2.toList) = .ok change ∧
      "A" ∈ change.added ∧ "B" ∉ change.added ∧
      ∃ m ∈ (SourceFile.parse "t.ts" exportedBeside.2.toList).mentions, m.name = "B" ∧
        ¬ m.Heeded (.parse "t.ts" exportedBeside.2.toList) := by
  obtain ⟨clean, imports, free, closed, own, foreign⟩ := exportedBeside_read
  obtain ⟨change, hchange, added_iff, free_iff, -⟩ :=
    reconcileImports_added_iff (ofTexts exportedBeside.1 exportedBeside.2) 1 clean
  have unbound (x : String) : ∀ n ∈ (SourceFile.parse "t.ts" exportedBeside.2.toList).imports,
      x ∉ (Import.ofNode n).localNames := by
    rw [List.isEmpty_iff.1 imports]
    exact fun _ mem => absurd mem List.not_mem_nil
  refine ⟨clean, change, hchange, (added_iff "A").2 ⟨by simp [free], unbound "A",
    List.ne_nil_of_mem (mem_exporters_ofTexts closed own)⟩, fun added => ?_, ?_⟩
  · -- the reading file itself does not count, and the other one does not export the name
    obtain ⟨-, -, exported⟩ := (added_iff "B").1 added
    refine exported ?_
    rw [exporters_eq closed, List.filter_eq_nil_iff]
    intro id hid
    have first : id ≤ 1 := Nat.le_of_lt_succ (List.mem_range.1 hid)
    obtain rfl | rfl := Nat.le_one_iff_eq_zero_or_eq_one.1 first
    · simp [foreign]
    · simp
  · obtain ⟨m, hm, -, name, loose⟩ := (free_iff "B").1 (by simp [free])
    exact ⟨m, hm, name, loose⟩

/-- A member of an enum holds in the initializers of the members behind it, but the walk takes it
for free there. The other file exports the same name. -/
def initializedByMember : String × String := ("export const A = 1", "enum E \x7b A = 1, B = A \x7d")

theorem initializedByMember_read :
    (SourceFile.parse "t.ts" initializedByMember.2.toList).hasErrors = false ∧
    (∀ m ∈ (SourceFile.parse "t.ts" initializedByMember.2.toList).mentions,
      m.name = "A" → m.Captured (.parse "t.ts" initializedByMember.2.toList) .enumMember) ∧
    "A" ∈ (SourceFile.parse "t.ts" initializedByMember.2.toList).references.free ∧
    (∀ n ∈ (SourceFile.parse "t.ts" initializedByMember.2.toList).imports,
      "A" ∉ (Import.ofNode n).localNames) ∧
    (∀ m ∈ (ofTexts initializedByMember.1 initializedByMember.2).modules, m.reexports = []) ∧
    ((ofTexts initializedByMember.1 initializedByMember.2).module? 0).any (·.exportsOwn "A") =
      true := by
  decide +kernel

/-- An import of the name of the member is added, although every mention of it is captured. -/
theorem initializedByMember_added :
    (SourceFile.parse "t.ts" initializedByMember.2.toList).hasErrors = false ∧
    (∀ m ∈ (SourceFile.parse "t.ts" initializedByMember.2.toList).mentions,
      m.name = "A" → m.Captured (.parse "t.ts" initializedByMember.2.toList) .enumMember) ∧
    ∃ change, (ofTexts initializedByMember.1 initializedByMember.2).reconcileImports 1
        (.parse "t.ts" initializedByMember.2.toList) = .ok change ∧ "A" ∈ change.added := by
  obtain ⟨clean, captured, free, notImported, closed, own⟩ := initializedByMember_read
  obtain ⟨change, hchange⟩ :=
    (ofTexts initializedByMember.1 initializedByMember.2).reconcileImports_isOk 1 clean
  obtain ⟨-, added, -⟩ := reconcileImports_eq_ok.1 hchange
  refine ⟨clean, captured, change, hchange, ?_⟩
  rw [added, ImportDraft.mem_added, ImportDraft.exporter?, ImportDraft.firstLeast_isSome]
  exact ⟨free, notImported, List.ne_nil_of_mem (mem_exporters_ofTexts closed own)⟩

end Program

end FactorySync
