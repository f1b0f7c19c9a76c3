import FactorySync.Proofs.FirstUses
import FactorySync.Proofs.NeededImports
import FactorySync.Proofs.Output
import Mathlib.Data.List.Nodup
import Mathlib.Data.List.Perm.Basic

/-!
# Imports are reconciled exactly

A name to be imported is added either to one of the imports that are there or to one of those to be
made, so what the imports bind afterwards is what they keep together with what is added
(`ImportDraft.localNames_perm`). From this follows all that can be asked of the new list of imports:
it binds what is used and nothing else, and nothing twice (`Program.reconcileImports_exact`).
-/

namespace FactorySync

/-! ## Bindings of imports -/

/-- What a name is bound to by an import. -/
inductive ImportSource where
  | default
  | everything
  | exported (name : String)
  deriving Repr, DecidableEq

/-- A name that an import binds, and to what. -/
structure ImportBinding where
  localName : String
  source : ImportSource
  /-- The name of the module, as it is written. -/
  specifier : String
  deriving Repr, DecidableEq

namespace Import

/-- What an import binds. -/
def bindings (i : Import) : List ImportBinding :=
  i.defaultName.toList.map (⟨·, .default, i.specifier⟩) ++
    i.namespaceName.toList.map (⟨·, .everything, i.specifier⟩) ++
    i.items.map fun item => ⟨item.localName, .exported item.exported, i.specifier⟩

theorem bindings_localNames (i : Import) : i.bindings.map (·.localName) = i.localNames := by
  simp [bindings, localNames, Function.comp_def]

theorem mem_localNames {i : Import} {b : ImportBinding} (h : b ∈ i.bindings) :
    b.localName ∈ i.localNames := by
  rw [← bindings_localNames]
  exact List.mem_map_of_mem h

theorem restrict_bindings (used : String → Bool) (i : Import) :
    (i.restrict used).bindings = i.bindings.filter (used ·.localName) := by
  have optional (name : Option String) (source : ImportSource) :
      (name.filter used).toList.map (⟨·, source, i.specifier⟩) =
        (name.toList.map (⟨·, source, i.specifier⟩)).filter fun b : ImportBinding =>
          used b.localName := by
    cases name with
    | none => rfl
    | some name => cases h : used name <;> simp [Option.filter_some, h]
  simp [bindings, restrict, optional, List.filter_map, Function.comp_def]

end Import

/-- What the imports of a file bind. -/
def SourceFile.importBindings (f : SourceFile) : List ImportBinding :=
  f.imports.flatMap fun n => (Import.ofNode n).bindings

/-- The names that are used in a file without being bound there, in the order of their uses. -/
def SourceFile.freeUses (f : SourceFile) : List String :=
  (f.occurrences.filter fun o => o.usage != .skipped && !o.isBound).map (·.name)

namespace ImportPlan

variable {plan : ImportPlan}

theorem sortedItems_localNames (names : List String) :
    ((sortedItems names).map (·.localName)).Perm names := by
  rw [sortedItems, List.map_map]
  exact (List.map_id' _).symm ▸ List.mergeSort_perm ..

theorem result_bindings : plan.result.bindings = plan.kept.bindings ++
    (sortedItems plan.added).map fun item =>
      ⟨item.localName, .exported item.exported, plan.kept.specifier⟩ := by
  simp [result, Import.bindings]

theorem result_localNames_perm :
    plan.result.localNames.Perm (plan.kept.localNames ++ plan.added) := by
  have names : plan.result.localNames =
      plan.kept.localNames ++ (sortedItems plan.added).map (·.localName) := by
    simp [result, Import.localNames]
  rw [names]
  exact (sortedItems_localNames _).append_left _

theorem result_bindings_eq_nil (gone : plan.fate = .removed) : plan.result.bindings = [] := by
  unfold fate at gone
  split at gone
  · exact nomatch gone
  next added =>
  split at gone
  · exact nomatch gone
  split at gone
  · next nothing =>
    simp only [Import.bindsNothing, Bool.and_eq_true, Option.isNone_iff_eq_none,
      List.isEmpty_iff] at nothing
    have added : plan.added = [] := by simpa using added
    simp [result, Import.bindings, nothing, added, sortedItems]
  · exact nomatch gone

end ImportPlan

namespace ImportDraft

/-- An import to be made. -/
def freshImport (fresh : String × List String) : Import :=
  { specifier := fresh.1, items := ImportPlan.sortedItems fresh.2 }

/-- The imports that there will be. -/
def imports (d : ImportDraft) : List Import :=
  (d.plans.filter (·.fate != .removed)).map (·.result) ++ d.fresh.map freshImport

/-- What the imports will bind. -/
def bindings (d : ImportDraft) : List ImportBinding := d.imports.flatMap Import.bindings

theorem freshImport_bindings (fresh : String × List String) : (freshImport fresh).bindings =
    (ImportPlan.sortedItems fresh.2).map fun item =>
      ⟨item.localName, .exported item.exported, fresh.1⟩ := rfl

/-- Imports that go do not count, for they bind nothing. -/
theorem bindings_eq (d : ImportDraft) : d.bindings =
    d.plans.flatMap (·.result.bindings) ++ d.fresh.flatMap fun fresh =>
      (freshImport fresh).bindings := by
  have kept (plans : List ImportPlan) :
      (plans.filter (·.fate != .removed)).flatMap (·.result.bindings) =
        plans.flatMap (·.result.bindings) := by
    induction plans with
    | nil => rfl
    | cons plan plans ih =>
      rw [List.filter_cons]
      split
      · rw [List.flatMap_cons, List.flatMap_cons, ih]
      · next gone =>
        rw [List.flatMap_cons, ImportPlan.result_bindings_eq_nil (by simpa using gone), ih]
        rfl
  simp only [bindings, imports, List.flatMap_append, List.flatMap_map, kept]

/-! ## What is kept and what is added -/

/-- The names to be added to imports that are there or to be made. -/
def pending (d : ImportDraft) : List String := d.plans.flatMap (·.added) ++ d.fresh.flatMap (·.2)

theorem localNames_perm (d : ImportDraft) :
    (d.bindings.map (·.localName)).Perm (d.available ++ d.pending) := by
  have plans : (d.plans.flatMap (·.result.localNames)).Perm
      (d.available ++ d.plans.flatMap (·.added)) :=
    (List.Perm.flatMap_left _ fun _ _ => ImportPlan.result_localNames_perm).trans
      (List.flatMap_append_perm ..).symm
  have fresh : (d.fresh.flatMap fun fresh => (freshImport fresh).localNames).Perm
      (d.fresh.flatMap (·.2)) :=
    List.Perm.flatMap_left _ fun _ _ => ImportPlan.sortedItems_localNames _
  rw [bindings_eq, List.map_append, List.map_flatMap, List.map_flatMap]
  simp only [Import.bindings_localNames]
  rw [pending, ← List.append_assoc]
  exact plans.append fresh

theorem addFresh_perm (specifier name : String) (fresh : List (String × List String)) :
    ((addFresh specifier name fresh).flatMap (·.2)).Perm (fresh.flatMap (·.2) ++ [name]) := by
  induction fresh with
  | nil => exact .refl _
  | cons entry fresh ih =>
    obtain ⟨s, names⟩ := entry
    rw [addFresh]
    split
    · simp only [List.flatMap_cons, List.append_assoc]
      exact (List.perm_append_comm).append_left names
    · simp only [List.flatMap_cons, List.append_assoc]
      exact ih.append_left names

theorem modify_perm {plans : List ImportPlan} {i : Nat} (lt : i < plans.length) (name : String) :
    ((plans.modify i fun plan => { plan with added := plan.added ++ [name] }).flatMap
      (·.added)).Perm (plans.flatMap (·.added) ++ [name]) := by
  induction plans generalizing i with
  | nil => exact absurd lt (Nat.not_lt_zero _)
  | cons plan plans ih =>
    cases i with
    | zero =>
      simp only [List.modify_zero_cons, List.flatMap_cons, List.append_assoc]
      exact (List.perm_append_comm).append_left plan.added
    | succ i =>
      simp only [List.modify_succ_cons, List.flatMap_cons, List.append_assoc]
      exact (ih (Nat.lt_of_succ_lt_succ lt)).append_left plan.added

variable {p : Program} {file : FileId} {f : SourceFile}

theorem add_pending (exporter : FileId) (name : String) (d : ImportDraft) :
    (d.add p file exporter name).pending.Perm (d.pending ++ [name]) := by
  unfold add
  dsimp only
  split
  · next i hi =>
    obtain ⟨lt, -⟩ := List.findIdx?_eq_some_iff_getElem.1 hi
    refine ((modify_perm lt name).append_right _).trans ?_
    simp only [pending, List.append_assoc]
    exact (List.perm_append_comm).append_left _
  · simp only [pending, List.append_assoc]
    exact (addFresh_perm _ _ _).append_left _

theorem addAll_pending (names : List String) (d : ImportDraft) (h : d.pending.Perm d.added) :
    (d.addAll p file names).pending.Perm (d.addAll p file names).added := by
  induction names generalizing d with
  | nil => exact h
  | cons name names ih =>
    rw [addAll, List.foldl_cons, ← addAll]
    refine ih _ ?_
    split
    · rw [add_added]
      exact (add_pending _ _ _).trans (h.append_right _)
    · exact h

/-- Every name to be imported is added to one import. -/
theorem ofProgram_pending : (ofProgram p file f).pending.Perm (ofProgram p file f).added := by
  rw [ofProgram_eq]
  refine addAll_pending _ _ ?_
  have start : (ofFile f).pending = [] := by
    refine List.append_eq_nil_iff.2 ⟨List.flatMap_eq_nil_iff.2 fun plan hplan => ?_, rfl⟩
    obtain ⟨n, -, rfl⟩ := List.mem_map.1 hplan
    rfl
  rw [start]
  exact .refl _

/-! ## What comes and goes -/

theorem available_ofProgram : (ofProgram p file f).available =
    (f.importBindings.map (·.localName)).filter f.references.uses := by
  have same := ofProgram_map (g := (·.kept.localNames)) (fun _ _ => rfl) p file f
  rw [available, List.flatMap_def, same, ← List.flatMap_def, SourceFile.importBindings,
    List.map_flatMap, List.filter_flatMap]
  simp only [ImportPlan.ofNode, Import.restrict_localNames, Import.bindings_localNames]

theorem removed_ofProgram : (ofProgram p file f).removed =
    (f.importBindings.map (·.localName)).filter (!f.references.uses ·) := by
  have same := ofProgram_map (g := (·.dropped)) (fun _ _ => rfl) p file f
  rw [removed, List.flatMap_def, same, ← List.flatMap_def, SourceFile.importBindings,
    List.map_flatMap, List.filter_flatMap]
  refine List.flatMap_congr fun n _ => ?_
  rw [Import.bindings_localNames, ImportPlan.ofNode, Import.restrict_localNames]
  refine List.filter_congr fun x hx => ?_
  simp [hx]

theorem added_ofProgram : (ofProgram p file f).added = f.references.free.filter fun x =>
    !(ofFile f).available.contains x && (exporter? p file x).isSome := by
  rw [ofProgram_eq, addAll_added, List.filter_filter]
  exact List.filter_congr fun x _ => Bool.and_comm _ _

theorem ofProgram_localNames_perm : ((ofProgram p file f).bindings.map (·.localName)).Perm
    ((f.importBindings.map (·.localName)).filter f.references.uses ++
      (ofProgram p file f).added) := by
  have perm := localNames_perm (ofProgram p file f)
  rw [available_ofProgram] at perm
  exact perm.trans (ofProgram_pending.append_left _)

end ImportDraft

/-! ## The order of first uses -/

theorem SourceFile.free_pairwise (f : SourceFile) : f.references.free.Pairwise fun x y =>
    f.freeUses.idxOf x < f.freeUses.idxOf y := pairwise_idxOf_eraseDups f.freeUses

theorem SourceFile.free_nodup (f : SourceFile) : f.references.free.Nodup :=
  nodup_eraseDups f.freeUses

/-! ## Exact imports -/

/-- That a change to the imports of a file, planned by a draft, is exact: the imports of the draft
bind what is needed, the change reports what came and went, and nothing else is touched. -/
structure ImportChange.Exact (p : Program) (file : FileId) (f : SourceFile) (d : ImportDraft)
    (change : ImportChange) : Prop where
  text : Edit.applyAll f.text (d.edits f.text) = .ok change.text
  /-- Nothing is bound that is not used. -/
  used : ∀ b ∈ d.bindings, f.references.uses b.localName = true
  /-- What is free and exported by another file is bound, and once only. -/
  bound : ∀ x ∈ f.references.free, p.exporters x file ≠ [] →
    (d.bindings.map (·.localName)).count x = 1
  /-- A used binding stays, to the same name of the same module. -/
  kept : ∀ b ∈ f.importBindings, f.references.uses b.localName = true → b ∈ d.bindings
  removed : change.removed = (f.importBindings.map (·.localName)).filter fun x =>
    x ∉ d.bindings.map (·.localName)
  added : ∀ x, x ∈ change.added ↔
    x ∈ d.bindings.map (·.localName) ∧ x ∉ f.importBindings.map (·.localName)
  order : change.added.Pairwise fun x y => f.freeUses.idxOf x < f.freeUses.idxOf y
  /-- An import that binds the names it has always bound keeps its text. -/
  untouched : ∀ plan ∈ d.plans,
    (∀ x, x ∈ plan.result.localNames ↔ x ∈ (Import.ofNode plan.node).localNames) →
      plan.edit? f.text = none

namespace ImportDraft

variable {p : Program} {file : FileId} {f : SourceFile} {x : String}

theorem mem_localNames : x ∈ (ofProgram p file f).bindings.map (·.localName) ↔
    (x ∈ f.importBindings.map (·.localName) ∧ f.references.uses x = true) ∨
      x ∈ (ofProgram p file f).added := by
  rw [ofProgram_localNames_perm.mem_iff, List.mem_append, List.mem_filter]

theorem mem_added_iff : x ∈ (ofProgram p file f).added ↔ x ∈ f.references.free ∧
    x ∉ f.importBindings.map (·.localName) ∧ p.exporters x file ≠ [] := by
  rw [mem_added, exporter?, firstLeast_isSome]
  simp [SourceFile.importBindings, List.map_flatMap, Import.bindings_localNames]

theorem uses_of_free (h : x ∈ f.references.free) : f.references.uses x = true := by
  simp [References.uses, h]

theorem uses_of_mem (h : x ∈ (ofProgram p file f).bindings.map (·.localName)) :
    f.references.uses x = true := by
  rcases mem_localNames.1 h with ⟨-, used⟩ | added
  · exact used
  · exact uses_of_free (mem_added_iff.1 added).1

theorem stays_iff (before : x ∈ f.importBindings.map (·.localName)) :
    x ∈ (ofProgram p file f).bindings.map (·.localName) ↔ f.references.uses x = true :=
  ⟨uses_of_mem, fun used => mem_localNames.2 (.inl ⟨before, used⟩)⟩

theorem kept_mem {b : ImportBinding} (h : b ∈ f.importBindings)
    (used : f.references.uses b.localName = true) : b ∈ (ofProgram p file f).bindings := by
  obtain ⟨n, hn, hb⟩ := List.mem_flatMap.1 h
  have nodes := ofProgram_nodes p file f
  rw [← nodes] at hn
  obtain ⟨plan, hplan, rfl⟩ := List.mem_map.1 hn
  obtain ⟨-, hkept⟩ := exists_ofNode hplan
  rw [bindings_eq]
  refine List.mem_append_left _ (List.mem_flatMap.2 ⟨plan, hplan, ?_⟩)
  rw [ImportPlan.result_bindings, hkept, ImportPlan.ofNode, Import.restrict_bindings]
  exact List.mem_append_left _ (List.mem_filter.2 ⟨hb, used⟩)

theorem count_localNames (distinct : (f.importBindings.map (·.localName)).Nodup)
    (free : x ∈ f.references.free) (exported : p.exporters x file ≠ []) :
    ((ofProgram p file f).bindings.map (·.localName)).count x = 1 := by
  have added_nodup : (ofProgram p file f).added.Nodup := by
    rw [added_ofProgram]
    exact f.free_nodup.filter _
  have nodup : ((ofProgram p file f).bindings.map (·.localName)).Nodup := by
    refine ofProgram_localNames_perm.nodup_iff.2
      (List.nodup_append.2 ⟨distinct.filter _, added_nodup, fun y hy z hz same => ?_⟩)
    subst same
    exact (mem_added_iff.1 hz).2.1 (List.mem_filter.1 hy).1
  -- a free name is used, so it stays if it was bound and is added if it was not
  refine List.count_eq_one_of_mem nodup (mem_localNames.2 ?_)
  by_cases before : x ∈ f.importBindings.map (·.localName)
  · exact .inl ⟨before, uses_of_free free⟩
  · exact .inr (mem_added_iff.2 ⟨free, before, exported⟩)

theorem dropped_ofProgram {plan : ImportPlan} (hplan : plan ∈ (ofProgram p file f).plans) :
    plan.dropped = (ImportPlan.ofNode f.references plan.node).dropped := by
  have same := ofProgram_map (g := fun plan => (plan.node, plan.dropped)) (fun _ _ => rfl) p file f
  have mem := List.mem_map_of_mem (f := fun plan : ImportPlan => (plan.node, plan.dropped)) hplan
  rw [same] at mem
  obtain ⟨n, -, heq⟩ := List.mem_map.1 mem
  obtain ⟨hnode, hdropped⟩ := Prod.mk.inj heq
  have hnode : n = plan.node := hnode
  rw [← hdropped, hnode]

theorem added_mem {plan : ImportPlan} (hplan : plan ∈ (ofProgram p file f).plans)
    (hx : x ∈ plan.added) : x ∈ (ofProgram p file f).added :=
  ofProgram_pending.mem_iff.1 (List.mem_append_left _ (List.mem_flatMap.2 ⟨plan, hplan, hx⟩))

/-- A plan drops names that are not used and adds names that were not bound. So if it binds what
was bound before it does neither. -/
theorem edit?_eq_none {plan : ImportPlan} (hplan : plan ∈ (ofProgram p file f).plans)
    (same : ∀ x, x ∈ plan.result.localNames ↔ x ∈ (Import.ofNode plan.node).localNames)
    (text : List Char) : plan.edit? text = none := by
  obtain ⟨hnode, hkept⟩ := exists_ofNode hplan
  have added : plan.added = [] := by
    refine List.eq_nil_iff_forall_not_mem.2 fun x hx => ?_
    have after : x ∈ plan.result.localNames :=
      ImportPlan.result_localNames_perm.mem_iff.2 (List.mem_append_right _ hx)
    refine (mem_added.1 (added_mem hplan hx)).2.1 plan.node hnode ((same x).1 after)
  have dropped : plan.dropped = [] := by
    refine List.eq_nil_iff_forall_not_mem.2 fun x hx => ?_
    rw [dropped_ofProgram hplan] at hx
    obtain ⟨before, unused⟩ := ImportPlan.mem_dropped.1 hx
    have after := ImportPlan.result_localNames_perm.mem_iff.1 ((same x).2 before)
    rw [added, List.append_nil, hkept] at after
    exact Bool.noConfusion (unused.symm.trans (ImportPlan.mem_kept.1 after).2)
  exact ImportPlan.edit?_eq_none added dropped

end ImportDraft

namespace Program

variable {path : String} {text : List Char}

/-- Where the imports of a file without errors bind no name twice, they are reconciled exactly. -/
theorem reconcileImports_exact (p : Program) (file : FileId)
    (clean : (SourceFile.parse path text).hasErrors = false)
    (distinct : ((SourceFile.parse path text).importBindings.map (·.localName)).Nodup) :
    ∃ change, p.reconcileImports file (.parse path text) = .ok change ∧
      change.Exact p file (.parse path text) (ImportDraft.ofProgram p file (.parse path text)) := by
  obtain ⟨change, hchange⟩ := p.reconcileImports_isOk file clean
  obtain ⟨hout, hadded, hremoved⟩ := reconcileImports_eq_ok.1 hchange
  refine ⟨change, hchange, ?_⟩
  exact {
    text := hout
    used := fun b hb => ImportDraft.uses_of_mem (List.mem_map_of_mem hb)
    bound := fun x => ImportDraft.count_localNames distinct
    kept := fun b => ImportDraft.kept_mem
    removed := by
      rw [hremoved, ImportDraft.removed_ofProgram]
      refine List.filter_congr fun x before => ?_
      simp only [ImportDraft.stays_iff before, Bool.not_eq_true, Bool.decide_eq_false]
    added := fun x => by
      have new (h : x ∈ (ImportDraft.ofProgram p file (.parse path text)).added) :
          x ∉ (SourceFile.parse path text).importBindings.map (·.localName) :=
        (ImportDraft.mem_added_iff.1 h).2.1
      rw [hadded, ImportDraft.mem_localNames]
      exact ⟨fun h => ⟨.inr h, new h⟩, fun h => h.1.resolve_left fun stays => h.2 stays.1⟩
    order := by
      rw [hadded, ImportDraft.added_ofProgram]
      exact (SourceFile.free_pairwise _).filter _
    untouched := fun plan hplan same => ImportDraft.edit?_eq_none hplan same _ }

/-- One import loses a name and gains another, and a second one goes. -/
def mergedImports : String :=
  "import \x7b A, B \x7d from './x'\nimport * as D from './d'\nA(C)"

theorem mergedImports_read : (SourceFile.parse "t.ts" mergedImports.toList).hasErrors = false ∧
    ((SourceFile.parse "t.ts" mergedImports.toList).importBindings.map (·.localName)).Nodup := by
  decide +kernel

theorem mergedImports_reconciled :
    (SourceFile.parse "t.ts" mergedImports.toList).hasErrors = false ∧
    ((SourceFile.parse "t.ts" mergedImports.toList).importBindings.map (·.localName)).Nodup ∧
    ∃ change, (ofTexts "export const A = 1, B = 2, C = 3" mergedImports).reconcileImports 1
        (.parse "t.ts" mergedImports.toList) = .ok change ∧
      change.Exact (ofTexts "export const A = 1, B = 2, C = 3" mergedImports) 1
        (.parse "t.ts" mergedImports.toList)
        (ImportDraft.ofProgram (ofTexts "export const A = 1, B = 2, C = 3" mergedImports) 1
          (.parse "t.ts" mergedImports.toList)) :=
  ⟨mergedImports_read.1, mergedImports_read.2,
    reconcileImports_exact _ _ mergedImports_read.1 mergedImports_read.2⟩

end Program
end FactorySync
