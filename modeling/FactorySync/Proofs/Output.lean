import FactorySync.Proofs.Creation
import FactorySync.Proofs.NeededImports
import FactorySync.Proofs.Remainder

/-!
# What a run puts out

The last change of a run is to the imports, and its result is not read again. The text before that
change was read and has no errors. The change spares all other statements
(`Program.reconcileImports_copies`), and if no import comes or goes there is no change at all
(`Generation.run_output`). The beginning of the file is not spared: new imports are inserted there
if there are none yet, even in front of a line that has to be the first one
(`Generation.shebang_broken`).
-/

namespace FactorySync

open Parse
open GenerationProblem (ofEdits)

variable {text : List Char}

theorem ImportPlan.edit?_eq_none {plan : ImportPlan} (added : plan.added = [])
    (dropped : plan.dropped = []) : plan.edit? text = none := by
  have unchanged : plan.fate = .unchanged := by simp [fate, added, dropped]
  rw [edit?, unchanged]

namespace ImportDraft

variable {d : ImportDraft} {p : Program} {file : FileId} {f : SourceFile}

/-! ## Nothing to do -/

theorem addAll_eq_self {names : List String} (h : (d.addAll p file names).added = d.added) :
    d.addAll p file names = d := by
  have none : ∀ name ∈ names, exporter? p file name = none := by
    rw [addAll_added] at h
    simpa using h
  clear h
  induction names with
  | nil => rfl
  | cons name names ih =>
    rw [addAll, List.foldl_cons, none name List.mem_cons_self, ← addAll]
    exact ih fun name' h => none name' (List.mem_cons_of_mem name h)

/-- If no name comes or goes, there is nothing to edit. -/
theorem edits_eq_nil (added : (ofProgram p file f).added = [])
    (removed : (ofProgram p file f).removed = []) (text : List Char) :
    (ofProgram p file f).edits text = [] := by
  have same : ofProgram p file f = ofFile f := addAll_eq_self added
  rw [same] at removed ⊢
  have unchanged : ∀ plan ∈ (ofFile f).plans, plan.edit? text = none := by
    intro plan hplan
    have dropped : plan.dropped = [] := List.flatMap_eq_nil_iff.1 removed plan hplan
    obtain ⟨n, -, rfl⟩ := List.mem_map.1 hplan
    exact ImportPlan.edit?_eq_none rfl dropped
  rw [edits, List.filterMap_eq_nil_iff.2 unchanged]
  rfl

/-! ## What is not an import -/

/-- What stands apart from all imports is spared by the edits to them. -/
theorem edits_spare (order : InOrder text (d.plans.map (·.node))) {n : Node}
    (token : TokenStart text n.span.start) (apart : ∀ plan ∈ d.plans,
      plan.node.span.stop ≤ n.span.start ∨ n.span.stop ≤ plan.node.span.start) :
    ∀ e ∈ d.edits text, e.Spares n.span.start n.span.stop := by
  intro e he
  rcases List.mem_append.1 he with he | he
  · obtain ⟨plan, hplan, hedit⟩ := List.mem_filterMap.1 he
    obtain ⟨-, hstart, -, hstop⟩ := ImportPlan.edit?_span hedit (plan_cuts order hplan)
    rcases apart plan hplan with before | after
    · exact .inl (hstop _ token before)
    · exact .inr (hstart ▸ after)
  · split at he
    · exact absurd he List.not_mem_nil
    · rw [List.mem_singleton.1 he]
      unfold freshEdit
      split
      · next plan hlast =>
        have hplan := (List.mem_filter.1 (List.mem_of_getLast? hlast)).1
        have cuts := plan_cuts order hplan
        exact (apart plan hplan).imp_right fun after => Nat.le_trans after cuts.start_le_stop
      · next plan _ hhead =>
        have hplan := List.mem_of_head? hhead
        have cuts := plan_cuts order hplan
        exact (apart plan hplan).imp_left fun before => Nat.le_trans cuts.start_le_stop before
      · exact .inl (Nat.zero_le _)

end ImportDraft

/-- Reconciling the imports of a file without errors spares its other statements. -/
theorem SourceFile.statement_spared {path : String} (clean : (parse path text).hasErrors = false)
    (p : Program) (file : FileId) {n : Node} (hn : n ∈ (parse path text).statements)
    (other : n.kind ≠ .importDeclaration) :
    ∀ e ∈ (ImportDraft.ofProgram p file (parse path text)).edits text,
      e.Spares n.span.start n.span.stop := by
  obtain ⟨last, reads⟩ := reads_statements clean
  have order := reads.inOrder (Parser.firstReading_sound path text)
  have nodes := ImportDraft.ofProgram_nodes p file (parse path text)
  refine ImportDraft.edits_spare (by rw [nodes]; exact imports_inOrder clean)
    (order.tokenStart n hn) fun plan hplan => ?_
  have himport : plan.node ∈ (parse path text).imports := nodes ▸ List.mem_map_of_mem hplan
  obtain ⟨hmem, isImport⟩ := List.mem_filter.1 himport
  rcases ImportDraft.pairwise_cases order.pairwise hmem hn with heq | before | after
  · exact absurd (heq ▸ beq_iff_eq.1 isImport) other
  · exact .inl before
  · exact .inr after

/-- A span that all edits spare is copied as a whole. -/
theorem Edit.applyAll_copied {out : List Char} {es : List Edit} {span : Span}
    (cuts : ∀ e ∈ es, e.span.Cuts text) (h : applyAll text es = .ok out) (place : span.Cuts text)
    (spared : ∀ e ∈ es, e.Spares span.start span.stop) :
    Copied text out span.start span.stop
      (target 0 (es.mergeSort fun a b => a.span.before b.span) span.start) := by
  have stands := StandsAt.of_boundary place.start_boundary
  obtain ⟨piece, hpiece, hstop⟩ := stands.between (.of_boundary place.stop_boundary)
    place.start_le_stop
  rw [hpiece] at stands
  rw [Copied, hstop, stands.slice]
  exact applyAll_copies cuts h stands (hstop ▸ spared)

namespace Generation

variable {project : Project} {c : Config}

/-- A target beside a file that exports a type. -/
def besideType (target : String) : Project where
  files := [{ path := "a.ts", text := "export type A = 1".toList },
    { path := "Structure.generated.ts", text := target.toList }]

/-- A target of which the first line is for the system. -/
def shebang : String := "#!\nexport const T = \x7b\x7d as A"

end Generation
end FactorySync
