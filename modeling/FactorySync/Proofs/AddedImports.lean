import FactorySync.Proofs.ExactImports
import FactorySync.Proofs.Specifiers

/-!
# Where added imports lead

A name is added to an import of the file that was chosen for it, or to a new import with the
specifier of that file (`ImportDraft.placed`). The first kind leads to the chosen file. The second
leads to the first file of the project among the candidates of the specifier: that is the chosen
file unless another one with the same specifier is preferred to it
(`Program.resolveModule?_specifier_iff`).
-/

namespace FactorySync

/-! ## Resolving the specifier of a file -/

namespace Program

variable {p : Program} {file target : FileId} {path : String}

/-- That the target is meant by its own specifier: its path is one of the candidates, and no file of
the project is preferred to it. -/
def ComesFirst (p : Program) (file target : FileId) : Prop :=
  p.path target ∈ Path.candidates (p.path file) (Path.specifier (p.path file) (p.path target)) ∧
    ∀ path ∈ (Path.candidates (p.path file)
      (Path.specifier (p.path file) (p.path target))).takeWhile (· ≠ p.path target),
      p.position? path = none

theorem position?_eq (p : Program) (path : String) :
    p.position? path = (p.files.map (·.path)).findIdx? (· == path) := by
  rw [List.findIdx?_map]
  rfl

theorem path_of_position? (h : p.position? path = some target) : p.path target = path := by
  obtain ⟨lt, same, -⟩ := List.findIdx?_eq_some_iff_getElem.1 h
  simpa [Program.path, file?, List.getElem?_eq_getElem lt] using same

theorem position?_path (distinct : (p.files.map (·.path)).Nodup) (lt : target < p.files.length) :
    p.position? (p.path target) = some target := by
  have here : p.path target = p.files[target].path := by
    simp [Program.path, file?, List.getElem?_eq_getElem lt]
  refine List.findIdx?_eq_some_iff_getElem.2 ⟨lt, by simp [here], fun j hj same => ?_⟩
  -- no path occurs twice, so it does not stand before
  have hlt : j < (p.files.map (·.path)).length := by
    rw [List.length_map]
    exact Nat.lt_trans hj lt
  have htarget : target < (p.files.map (·.path)).length := by rwa [List.length_map]
  have twice : (p.files.map (·.path))[j] = (p.files.map (·.path))[target] := by
    simpa [here] using same
  exact Nat.ne_of_lt hj ((List.Nodup.getElem_inj_iff distinct).1 twice)

theorem findSome?_position?_iff (distinct : (p.files.map (·.path)).Nodup)
    (lt : target < p.files.length) (paths : List String) :
    paths.findSome? p.position? = some target ↔ p.path target ∈ paths ∧
      ∀ path ∈ paths.takeWhile (· ≠ p.path target), p.position? path = none := by
  have found := position?_path distinct lt
  induction paths with
  | nil => simp
  | cons first paths ih =>
    rw [List.findSome?_cons]
    by_cases here : first = p.path target
    · subst here
      simp [found]
    · have elsewhere : p.path target ≠ first := Ne.symm here
      cases hfirst : p.position? first with
      | none => simpa [here, elsewhere, hfirst] using ih
      | some other =>
        have differs : other ≠ target := by
          rintro rfl
          exact here (path_of_position? hfirst).symm
        simp [here, hfirst, differs]

theorem resolveModule?_specifier_iff (distinct : (p.files.map (·.path)).Nodup)
    (lt : target < p.files.length) :
    p.resolveModule? file (Path.specifier (p.path file) (p.path target)) = some target ↔
      p.ComesFirst file target :=
  findSome?_position?_iff distinct lt _

/-- The specifier of a file that can be named means some file of the project. -/
theorem resolveModule?_specifier_isSome (distinct : (p.files.map (·.path)).Nodup)
    (lt : target < p.files.length) (h : Path.Nameable (p.path file) (p.path target)) :
    (p.resolveModule? file (Path.specifier (p.path file) (p.path target))).isSome = true :=
  List.findSome?_isSome_iff.2 ⟨p.path target, h.mem_candidates, by
    rw [position?_path distinct lt]
    rfl⟩

end Program

/-! ## Placing names -/

namespace ImportDraft

variable {p : Program} {file exporter : FileId} {f : SourceFile} {d : ImportDraft} {x y : String}

theorem firstLeast_mem {α : Type} {measure : α → Nat} {l : List α} {a : α}
    (h : firstLeast measure l = some a) : a ∈ l := by
  induction l generalizing a with
  | nil => exact nomatch h
  | cons b l ih =>
    unfold firstLeast at h
    split at h
    · cases h
      exact List.mem_cons_self
    · next c hc =>
      split at h
      · cases h
        exact List.mem_cons_self
      · cases h
        exact List.mem_cons_of_mem _ (ih hc)

theorem exporter?_exports (h : exporter? p file x = some exporter) :
    exporter < p.files.length ∧ exporter ≠ file ∧ (p.resolveExport? exporter x).isSome = true := by
  obtain ⟨lt, exports⟩ := List.mem_filter.1 (firstLeast_mem h)
  simp only [Bool.and_eq_true, bne_iff_ne] at exports
  exact ⟨List.mem_range.1 lt, exports⟩

/-- That every name that is to be imported is placed where the file that is chosen for it is meant:
in an import that leads to this file, or in a new one with its specifier. -/
structure Placed (p : Program) (file : FileId) (d : ImportDraft) : Prop where
  plans : ∀ plan ∈ d.plans, ∀ x ∈ plan.added, ∃ exporter, exporter? p file x = some exporter ∧
    p.resolveModule? file plan.kept.specifier = some exporter
  fresh : ∀ entry ∈ d.fresh, ∀ x ∈ entry.2, ∃ exporter, exporter? p file x = some exporter ∧
    entry.1 = Path.specifier (p.path file) (p.path exporter)

theorem mem_addFresh {specifier : String} {fresh : List (String × List String)}
    {entry : String × List String} (h : entry ∈ addFresh specifier x fresh) (hy : y ∈ entry.2) :
    (y = x ∧ entry.1 = specifier) ∨ ∃ before ∈ fresh, before.1 = entry.1 ∧ y ∈ before.2 := by
  induction fresh with
  | nil =>
    rw [addFresh, List.mem_singleton] at h
    subst h
    exact .inl ⟨List.mem_singleton.1 hy, rfl⟩
  | cons first fresh ih =>
    obtain ⟨s, names⟩ := first
    rw [addFresh] at h
    split at h
    · next same =>
      rcases List.mem_cons.1 h with rfl | h
      · rcases List.mem_append.1 hy with hy | hy
        · exact .inr ⟨_, List.mem_cons_self, rfl, hy⟩
        · exact .inl ⟨List.mem_singleton.1 hy, same⟩
      · exact .inr ⟨entry, List.mem_cons_of_mem _ h, rfl, hy⟩
    · rcases List.mem_cons.1 h with rfl | h
      · exact .inr ⟨_, List.mem_cons_self, rfl, hy⟩
      · rcases ih h with new | ⟨before, hmem, hbefore⟩
        · exact .inl new
        · exact .inr ⟨before, List.mem_cons_of_mem _ hmem, hbefore⟩

theorem mem_modify {plans : List ImportPlan} {i : Nat} {plan : ImportPlan}
    (h : plan ∈ plans.modify i fun plan => { plan with added := plan.added ++ [x] })
    (hy : y ∈ plan.added) :
    (y = x ∧ ∃ before, plans[i]? = some before ∧ before.kept = plan.kept) ∨
      ∃ before ∈ plans, before.kept = plan.kept ∧ y ∈ before.added := by
  obtain ⟨j, hj⟩ := List.mem_iff_getElem?.1 h
  rw [List.getElem?_modify] at hj
  cases hbefore : plans[j]? with
  | none => simp [hbefore] at hj
  | some before =>
    have hmem := List.mem_of_getElem? hbefore
    rw [hbefore, Option.map_eq_map, Option.map_some, Option.some_inj] at hj
    subst hj
    split at hy
    · next here =>
      rcases List.mem_append.1 hy with hy | hy
      · exact .inr ⟨before, hmem, by rw [if_pos here], hy⟩
      · exact .inl ⟨List.mem_singleton.1 hy, before, here ▸ hbefore, by rw [if_pos here]⟩
    · next elsewhere => exact .inr ⟨before, hmem, by rw [if_neg elsewhere], hy⟩

theorem Placed.add (h : d.Placed p file) (hx : exporter? p file x = some exporter) :
    (d.add p file exporter x).Placed p file := by
  unfold ImportDraft.add
  dsimp only
  split
  · -- the import that takes the name is one that leads to the exporter
    next i hi =>
    obtain ⟨lt, takes, -⟩ := List.findIdx?_eq_some_iff_getElem.1 hi
    refine ⟨fun plan hplan y hy => ?_, h.fresh⟩
    rcases mem_modify hplan hy with ⟨rfl, before, hbefore, kept⟩ | ⟨before, hmem, kept, hy⟩
    · rw [List.getElem?_eq_getElem lt, Option.some_inj] at hbefore
      rw [hbefore, Bool.and_eq_true, beq_iff_eq, kept] at takes
      exact ⟨exporter, hx, takes.2⟩
    · rw [← kept]
      exact h.plans before hmem y hy
  · refine ⟨h.plans, fun entry hentry y hy => ?_⟩
    rcases mem_addFresh hentry hy with ⟨rfl, specifier⟩ | ⟨before, hmem, specifier, hy⟩
    · exact ⟨exporter, hx, specifier⟩
    · rw [← specifier]
      exact h.fresh before hmem y hy

theorem placed (p : Program) (file : FileId) (f : SourceFile) :
    (ofProgram p file f).Placed p file := by
  refine ofProgram_induction ⟨fun plan hplan x hx => ?_, fun entry hentry => absurd hentry ?_⟩
    fun chosen h => h.add chosen
  · obtain ⟨n, -, rfl⟩ := List.mem_map.1 hplan
    exact absurd hx List.not_mem_nil
  · exact List.not_mem_nil

theorem mem_sortedItems {names : List String} {item : ImportItem}
    (h : item ∈ ImportPlan.sortedItems names) :
    item.exported ∈ names ∧ item.localName = item.exported := by
  obtain ⟨name, hname, rfl⟩ := List.mem_map.1 h
  exact ⟨(List.mergeSort_perm ..).mem_iff.1 hname, rfl⟩

/-- A name to be imported is bound to what the chosen file exports under it. -/
theorem binding_of_added {b : ImportBinding} (hb : b ∈ (ofProgram p file f).bindings)
    (hx : b.localName ∈ (ofProgram p file f).added) : b.source = .exported b.localName ∧
      ∃ exporter, exporter? p file b.localName = some exporter ∧
        (p.resolveModule? file b.specifier = some exporter ∨
          b.specifier = Path.specifier (p.path file) (p.path exporter)) := by
  have placed := placed p file f
  rw [bindings_eq] at hb
  rcases List.mem_append.1 hb with hb | hb
  · obtain ⟨plan, hplan, hb⟩ := List.mem_flatMap.1 hb
    rw [ImportPlan.result_bindings] at hb
    rcases List.mem_append.1 hb with kept | added
    · -- the names that are kept were bound before
      obtain ⟨hnode, hkept⟩ := exists_ofNode hplan
      rw [hkept] at kept
      exact absurd (ImportPlan.mem_kept.1 (Import.mem_localNames kept)).1
        ((mem_added.1 hx).2.1 plan.node hnode)
    · obtain ⟨item, hitem, rfl⟩ := List.mem_map.1 added
      obtain ⟨mem, same⟩ := mem_sortedItems hitem
      obtain ⟨exporter, chosen, leads⟩ := placed.plans plan hplan _ mem
      rw [same]
      exact ⟨rfl, exporter, chosen, .inl leads⟩
  · obtain ⟨entry, hentry, hb⟩ := List.mem_flatMap.1 hb
    rw [freshImport_bindings] at hb
    obtain ⟨item, hitem, rfl⟩ := List.mem_map.1 hb
    obtain ⟨mem, same⟩ := mem_sortedItems hitem
    obtain ⟨exporter, chosen, specifier⟩ := placed.fresh entry hentry _ mem
    rw [same]
    exact ⟨rfl, exporter, chosen, .inr specifier⟩

theorem count_added (hx : x ∈ (ofProgram p file f).added) :
    ((ofProgram p file f).bindings.map (·.localName)).count x = 1 := by
  have new : x ∉ f.importBindings.map (·.localName) := (mem_added_iff.1 hx).2.1
  have once : (ofProgram p file f).added.count x = 1 := by
    refine List.count_eq_one_of_mem ?_ hx
    rw [added_ofProgram]
    exact f.free_nodup.filter _
  rw [ofProgram_localNames_perm.count_eq, List.count_append, once,
    List.count_eq_zero_of_not_mem fun h => new (List.mem_filter.1 h).1]

end ImportDraft

namespace Program

variable {p : Program} {file : FileId} {f : SourceFile} {change : ImportChange}

/-- A name that is added is bound once, to what the file that was chosen for it exports under it.
An import that was there before leads to this file. A new one does exactly if the file comes first
under its specifier, and leads to some file of the project if the paths can be named. -/
theorem reconcileImports_added_leads (h : p.reconcileImports file f = .ok change) :
    ∀ x ∈ change.added,
      ((ImportDraft.ofProgram p file f).bindings.map (·.localName)).count x = 1 ∧
      ∀ b ∈ (ImportDraft.ofProgram p file f).bindings, b.localName = x →
        b.source = .exported x ∧ ∃ exporter, ImportDraft.exporter? p file x = some exporter ∧
          exporter ≠ file ∧ (p.resolveExport? exporter x).isSome = true ∧
          (p.resolveModule? file b.specifier = some exporter ∨
            b.specifier = Path.specifier (p.path file) (p.path exporter) ∧
              ((p.files.map (·.path)).Nodup →
                (p.resolveModule? file b.specifier = some exporter ↔
                  p.ComesFirst file exporter) ∧
                (Path.Nameable (p.path file) (p.path exporter) →
                  p.path exporter ∈ Path.candidates (p.path file) b.specifier ∧
                  (p.resolveModule? file b.specifier).isSome = true))) := by
  obtain ⟨-, added, -⟩ := reconcileImports_eq_ok.1 h
  intro x hx
  rw [added] at hx
  refine ⟨ImportDraft.count_added hx, fun b hb name => ?_⟩
  subst name
  obtain ⟨source, exporter, chosen, leads⟩ := ImportDraft.binding_of_added hb hx
  obtain ⟨lt, other, exports⟩ := ImportDraft.exporter?_exports chosen
  refine ⟨source, exporter, chosen, other, exports, leads.imp_right fun specifier => ?_⟩
  rw [specifier]
  exact ⟨rfl, fun distinct => ⟨resolveModule?_specifier_iff distinct lt, fun nameable =>
    ⟨nameable.mem_candidates, resolveModule?_specifier_isSome distinct lt nameable⟩⟩⟩

/-! ## Files with one specifier -/

/-- Two modules that differ in the extension only, and a file that reads from both. -/
def twins : Program :=
  .ofFiles [.parse "a.ts" "export const Y = 1".toList, .parse "a.tsx" "export const X = 1".toList,
    .parse "t.ts" "X(Y)".toList]

theorem twins_paths : twins.files.map (·.path) = ["a.ts", "a.tsx", "t.ts"] := by
  simp [twins, ofFiles]

theorem twins_path : twins.path 0 = "a.ts" ∧ twins.path 1 = "a.tsx" ∧ twins.path 2 = "t.ts" := by
  simp [path, file?, twins, ofFiles]

/-- What is read from the three files. The second module exports `X` and the first one `Y`. -/
theorem twins_read : ((SourceFile.parse "t.ts" "X(Y)".toList).hasErrors = false ∧
      (SourceFile.parse "t.ts" "X(Y)".toList).imports.isEmpty = true ∧
      (SourceFile.parse "t.ts" "X(Y)".toList).references.free = ["X", "Y"]) ∧
    (∀ m ∈ twins.modules, m.reexports = []) ∧
    ((List.range twins.files.length).filter fun id =>
      id != 2 && (twins.module? id).any (·.exportsOwn "X")) = [1] ∧
    ((List.range twins.files.length).filter fun id =>
      id != 2 && (twins.module? id).any (·.exportsOwn "Y")) = [0] ∧
    (twins.module? 0).any (·.exportsOwn "X") = false := by
  decide +kernel

/-- The two modules have one specifier, under which the first is tried before the second. -/
theorem twins_specifier : Path.specifier "t.ts" "a.ts" = "./a" ∧
    Path.specifier "t.ts" "a.tsx" = "./a" ∧
    Path.candidates "t.ts" "./a" =
      ["a.ts", "a.tsx", "a.d.ts", "a/index.ts", "a/index.tsx", "a/index.d.ts"] := by
  decide +kernel

theorem exporter?_twins : ImportDraft.exporter? twins 2 "X" = some 1 ∧
    ImportDraft.exporter? twins 2 "Y" = some 0 := by
  obtain ⟨-, closed, exportsX, exportsY, -⟩ := twins_read
  simp only [ImportDraft.exporter?, exporters_eq closed, exportsX, exportsY]
  exact ⟨rfl, rfl⟩

theorem resolveModule?_twins : twins.resolveModule? 2 "./a" = some 0 := by
  obtain ⟨-, -, candidates⟩ := twins_specifier
  rw [resolveModule?, twins_path.2.2, candidates, List.findSome?_cons, position?_eq, twins_paths]
  rfl

/-- Both names come from a new import with the one specifier. -/
theorem ofProgram_twins : ImportDraft.ofProgram twins 2 (.parse "t.ts" "X(Y)".toList) =
    { plans := [], fresh := [("./a", ["X", "Y"])], added := ["X", "Y"] } := by
  obtain ⟨⟨-, noImports, free⟩, -⟩ := twins_read
  obtain ⟨first, second, -⟩ := twins_specifier
  obtain ⟨chosenX, chosenY⟩ := exporter?_twins
  obtain ⟨path0, path1, path2⟩ := twins_path
  have start : ImportDraft.ofFile (.parse "t.ts" "X(Y)".toList) = { plans := [] } := by
    rw [ImportDraft.ofFile, List.isEmpty_iff.1 noImports]
    rfl
  have wanted : ["X", "Y"].filter (fun name =>
      !({ plans := [] } : ImportDraft).available.contains name) = ["X", "Y"] := rfl
  rw [ImportDraft.ofProgram_eq, start, free, wanted]
  simp only [ImportDraft.addAll, List.foldl_cons, List.foldl_nil, chosenX, chosenY,
    ImportDraft.add, List.findIdx?_nil, path0, path1, path2, first, second]
  rfl

theorem reconcileImports_twins : ∃ change,
    twins.reconcileImports 2 (.parse "t.ts" "X(Y)".toList) = .ok change ∧
      change.added = ["X", "Y"] := by
  obtain ⟨change, h⟩ := twins.reconcileImports_isOk 2 twins_read.1.1
  obtain ⟨-, added, -⟩ := reconcileImports_eq_ok.1 h
  rw [ofProgram_twins] at added
  exact ⟨change, h, added⟩

theorem twins_nameable : Path.Nameable "t.ts" "a.ts" := by
  have facts : Path.normalize "t.ts" = "t.ts" ∧ Path.normalize "a.ts" = "a.ts" ∧
      (∀ s ∈ (NormalPath.ofChars "t.ts".toList).segments, ¬ ['.', '.'] <+: s) ∧
      (∀ s ∈ (NormalPath.ofChars "a.ts".toList).segments, ¬ ['.', '.'] <+: s) ∧
      (Path.baseName "a.ts").toList = ['a'] ++ Extension.ts.text.toList ∧
      Extension.dts.endsPath "a.ts" = false := by
    decide +kernel
  obtain ⟨normalT, normalA, downT, downA, named, notDts⟩ := facts
  exact {
    fromPlain := ⟨normalT, downT⟩
    toPlain := ⟨normalA, downA⟩
    toSource := ⟨['a'], .ts, by decide, by decide, named, fun dts => by simp [notDts] at dts⟩
    sameRoot := rfl }

/-- The module that comes first is found under the specifier. -/
theorem twins_first_found : Path.Nameable "t.ts" "a.ts" ∧ ∃ change,
    twins.reconcileImports 2 (.parse "t.ts" "X(Y)".toList) = .ok change ∧ "Y" ∈ change.added ∧
      ∀ b ∈ (ImportDraft.ofProgram twins 2 (.parse "t.ts" "X(Y)".toList)).bindings,
        b.localName = "Y" → twins.resolveModule? 2 b.specifier = some 0 := by
  obtain ⟨change, h, added⟩ := reconcileImports_twins
  have hy : "Y" ∈ change.added := by rw [added]; decide
  refine ⟨twins_nameable, change, h, hy, fun b hb name => ?_⟩
  obtain ⟨-, exporter, chosen, -, -, leads⟩ := (reconcileImports_added_leads h "Y" hy).2 b hb name
  obtain rfl : 0 = exporter := Option.some_inj.1 (exporter?_twins.2.symm.trans chosen)
  have distinct : (twins.files.map (·.path)).Nodup := by rw [twins_paths]; decide
  have first : twins.ComesFirst 2 0 := by
    obtain ⟨specifier, -, candidates⟩ := twins_specifier
    simp only [ComesFirst, twins_path, specifier, candidates]
    simp
  exact leads.elim id fun fresh => (fresh.2 distinct).1.2 first

/-- The other one is not: the import of its name leads to a file that does not export it. -/
theorem twins_second_missed : ∃ change,
    twins.reconcileImports 2 (.parse "t.ts" "X(Y)".toList) = .ok change ∧ "X" ∈ change.added ∧
      ∃ b ∈ (ImportDraft.ofProgram twins 2 (.parse "t.ts" "X(Y)".toList)).bindings,
        b.localName = "X" ∧ ∀ file, twins.resolveModule? 2 b.specifier = some file →
          twins.resolveExport? file "X" = none := by
  obtain ⟨change, h, added⟩ := reconcileImports_twins
  refine ⟨change, h, by rw [added]; decide, ?_⟩
  have hx : "X" ∈ (ImportDraft.ofProgram twins 2 (.parse "t.ts" "X(Y)".toList)).added := by
    rw [ofProgram_twins]
    decide
  obtain ⟨b, hb, name⟩ := List.mem_map.1
    (List.count_pos_iff.1 (Nat.lt_of_lt_of_eq Nat.zero_lt_one (ImportDraft.count_added hx).symm))
  refine ⟨b, hb, name, fun file leads => ?_⟩
  have specifier : b.specifier = "./a" := by
    rw [ofProgram_twins, ImportDraft.bindings_eq] at hb
    obtain ⟨entry, hentry, hb⟩ := List.mem_flatMap.1 hb
    rw [List.mem_singleton.1 hentry, ImportDraft.freshImport_bindings] at hb
    obtain ⟨item, -, rfl⟩ := List.mem_map.1 hb
    rfl
  rw [specifier, resolveModule?_twins] at leads
  obtain rfl := Option.some_inj.1 leads
  obtain ⟨-, closed, -, -, missing⟩ := twins_read
  have none : (twins.resolveExport? 0 "X").isSome = false := by
    rw [resolveExport?_isSome closed (by simp [twins, ofFiles]), missing]
  exact Option.not_isSome_iff_eq_none.1 (Bool.eq_false_iff.1 none)

end Program
end FactorySync
