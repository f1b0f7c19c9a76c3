import FactorySync.Proofs.Clearing
import FactorySync.Proofs.ImportEdits
import FactorySync.Proofs.Insertion
import FactorySync.Proofs.Stages

/-!
# When a run ends in a conflict

Three batches of edits are carried out in a run. Inserting factories and reconciling imports always
succeed on a file without errors, so a run ends in a conflict exactly if two generated neighbours of
the target literal clash (`Generation.run_conflict_iff`).
-/

namespace FactorySync
namespace Generation

open GenerationProblem (ofLookup)

variable {fault : Edit.Fault}

/-! ## The edits of the three stages -/

theorem insert_ne_conflict {project : Project} {c : Config} {file : FileId}
    {factories : List Factory} : insert project c file factories ≠ .error (.conflict fault) := by
  intro h
  simp only [insert, bind_eq_error, intact_eq_error, target, ofLookup_eq_error, ofEdits_eq_error,
    reduceCtorEq, and_false, exists_false, false_or, or_self] at h
  obtain ⟨f, hf, literal, hliteral, fault', h, -⟩ := h
  obtain ⟨r, s, sound, reads⟩ := target_reads hf hliteral
  rw [Node.insertFactories_text reads sound (target_contains hf hliteral).2] at h
  cases h

theorem reconcile_ne_conflict {project : Project} {file : FileId} :
    reconcile project file ≠ .error (.conflict fault) := by
  intro h
  simp only [reconcile, bind_eq_error, intact_eq_error, ofEdits_eq_error, reduceCtorEq, and_false,
    exists_false, false_or, or_self] at h
  obtain ⟨f, hf, fault', h, -⟩ := h
  obtain ⟨path, text, rfl, clean⟩ := exists_parse hf
  obtain ⟨change, hchange⟩ := (Program.ofProject project).reconcileImports_isOk file clean
  rw [hchange] at h
  cases h

/-- The structures of a project, each with the factory made for it. -/
def made (p : Program) (c : Config) : List (StructureRecord × Factory) :=
  let records := (Catalog.ofProgram p c).records c
  records.zip (records.map (Factory.ofRecord c))

/-- A run comes as far as clearing the literal of the file `f`: both are found, the file has no
errors and every name is held once. -/
structure ReachesClearing (project : Project) (c : Config) (f : SourceFile) (literal : Node) :
    Prop where
  target : ∃ file, (Program.ofProject project).findFile c.targetFile = .ok file ∧
    intact (.ofProject project) file = .ok f ∧ target (.ofProject project) file c = .ok literal
  names : checkNames c literal (made (.ofProject project) c) = .ok ()

theorem clear_conflict_iff {project : Project} {c : Config} :
    clear project c = .error (.conflict fault) ↔ ∃ f literal,
      ReachesClearing project c f literal ∧
        literal.clearGenerated f.text c.generatedPrefix = .error fault := by
  simp only [clear, bind_eq_error, ofLookup_eq_error, ofLookup_eq_ok, intact_eq_error, target,
    ofEdits_eq_error, GenerationProblem.conflict.injEq, exists_eq_right, reduceCtorEq, and_false,
    exists_false, false_or, or_self]
  constructor
  · rintro ⟨file, hfile, f, hf, literal, hliteral, h | ⟨_, hnames, h | ⟨_, _, h⟩⟩⟩
    · obtain ⟨_, _, _, h⟩ := checkNames_eq_error h
      cases h
    · exact ⟨f, literal, ⟨⟨file, hfile, hf, ofLookup_eq_ok.2 hliteral⟩, hnames⟩, h⟩
    · cases h
  · rintro ⟨f, literal, ⟨⟨file, hfile, hf, hliteral⟩, hnames⟩, h⟩
    exact ⟨file, hfile, f, hf, literal, ofLookup_eq_ok.1 hliteral, .inr ⟨_, hnames, .inl h⟩⟩

/-- A run ends in a conflict exactly if its target literal cannot be cleared. -/
theorem run_conflict_iff_clear {project : Project} {c : Config} :
    run project c = .error (.conflict fault) ↔ clear project c = .error (.conflict fault) := by
  simp only [run_eq_error, insert_ne_conflict, reconcile_ne_conflict, and_false, exists_false,
    or_false]

/-- The members of the target of an intact file tile what is between its braces. -/
theorem ReachesClearing.tile {project : Project} {c : Config} {f : SourceFile} {literal : Node}
    (h : ReachesClearing project c f literal) :
    Member.Tile f.text literal.openBraceEnd literal.members := by
  obtain ⟨file, -, hf, hliteral⟩ := h.target
  obtain ⟨r, s, sound, reads⟩ := target_reads hf hliteral
  exact (Node.literal_tile reads sound (target_contains hf hliteral).2).2

/-- A run ends in a conflict exactly if it comes as far as clearing and two of the members to be
cleared clash. -/
theorem run_conflict_iff (project : Project) (c : Config) :
    (∃ fault, run project c = .error (.conflict fault)) ↔ ∃ f literal,
      ReachesClearing project c f literal ∧
        Member.Clash f.text (·.isGenerated c.generatedPrefix) literal.members := by
  simp only [run_conflict_iff_clear, clear_conflict_iff]
  constructor
  · rintro ⟨fault, f, literal, reached, h⟩
    refine ⟨f, literal, reached, Classical.byContradiction fun none => ?_⟩
    obtain ⟨change, hchange⟩ := (Node.clearGenerated_isOk_iff reached.tile _).2 none
    rw [h] at hchange
    exact nomatch hchange
  · rintro ⟨f, literal, reached, clash⟩
    cases h : literal.clearGenerated f.text c.generatedPrefix with
    | error fault => exact ⟨fault, f, literal, reached, h⟩
    | ok change =>
      exact absurd clash ((Node.clearGenerated_isOk_iff reached.tile _).1 ⟨change, h⟩)

/-- Whether two of the members that a run is to clear clash, if it comes as far as that. -/
def clashTest (project : Project) (c : Config) : Except GenerationProblem Bool := do
  let p := Program.ofProject project
  let file ← ofLookup (p.findFile c.targetFile)
  let f ← intact p file
  let literal ← target p file c
  checkNames c literal (made p c)
  return decide (Member.Clash f.text (·.isGenerated c.generatedPrefix) literal.members)

/-- Conflicts can be foreseen without an edit being carried out. -/
theorem run_conflict_iff_clashTest {project : Project} {c : Config} :
    (∃ fault, run project c = .error (.conflict fault)) ↔
      (clashTest project c).toOption = some true := by
  rw [run_conflict_iff, toOption_eq_some]
  simp only [clashTest, bind_eq_ok, ofLookup_eq_ok]
  constructor
  · rintro ⟨f, literal, ⟨⟨file, found, hf, hliteral⟩, names⟩, clash⟩
    exact ⟨file, found, f, hf, literal, hliteral, (), names, by rw [decide_eq_true clash]; rfl⟩
  · rintro ⟨file, found, f, hf, literal, hliteral, _, names, clash⟩
    cases h : decide (Member.Clash f.text (·.isGenerated c.generatedPrefix) literal.members) with
    | false => rw [h] at clash; cases clash
    | true => exact ⟨f, literal, ⟨⟨file, found, hf, hliteral⟩, names⟩, of_decide_eq_true h⟩

instance (project : Project) (c : Config) :
    Decidable (∃ fault, run project c = .error (.conflict fault)) :=
  decidable_of_iff _ run_conflict_iff_clashTest.symm

/-- Where taking members out of a literal goes wrong, and with it a run. In a file without errors
every removal span can be cut; two of them overlap exactly if their members are next to each other
and only the first one is taken out with its lines. Clearing fails exactly if two generated members
are such a pair, and a run ends in a conflict exactly if it comes as far as clearing such a
literal. -/
theorem removals_overlap_iff (project : Project) (c : Config) :
    (∀ {path : String} {text : List Char} {literal : Node} (lead : String),
      (SourceFile.parse path text).hasErrors = false →
      (SourceFile.parse path text).tree.Contains literal →
      literal.kind = .objectLiteralExpression →
        (∀ m ∈ literal.members, (m.removalSpan text).Cuts text) ∧
        (∀ i j a b, literal.members[i]? = some a → literal.members[j]? = some b → i < j →
          ((a.removalSpan text).stop ≤ (b.removalSpan text).start ↔
            ¬ (j = i + 1 ∧ a.onOwnLines text = true ∧ b.onOwnLines text = false))) ∧
        ((∃ change, literal.clearGenerated text lead = .ok change) ↔
          ¬ Member.Clash text (·.isGenerated lead) literal.members)) ∧
    ((∃ fault, run project c = .error (.conflict fault)) ↔ ∃ f literal,
      ReachesClearing project c f literal ∧
        Member.Clash f.text (·.isGenerated c.generatedPrefix) literal.members) := by
  refine ⟨fun lead clean found isLiteral => ?_, run_conflict_iff project c⟩
  obtain ⟨r, s, sound, reads⟩ := SourceFile.reads_of_contains clean found (by simp [isLiteral])
  obtain ⟨-, tile⟩ := Node.literal_tile reads sound isLiteral
  refine ⟨fun m hm => ?_, fun i j a b hi hj lt => tile.apart_iff hi hj lt,
    Node.clearGenerated_isOk_iff tile lead⟩
  obtain ⟨i, hi⟩ := List.getElem?_of_mem hm
  exact (tile.placed hi).removal_cuts

/-! ## Literals that cannot be cleared -/

/-- Two generated methods, of which the second one shares its line with the closing brace. -/
def sharedLine : String :=
  "export const Structure = \x7b\n    createX() \x7b\x7d,\n    createY() \x7b\x7d \x7d as const;\n"

/-- What evaluation says about this text. It is read once for all of it. -/
theorem sharedLine_evaluated :
    (SourceFile.parse "Structure.generated.ts" sharedLine.toList).hasErrors = false ∧
    ((target (.ofProject (onlyTarget sharedLine)) 0 {}).toOption.any fun literal =>
      decide (Member.Clash sharedLine.toList (·.isGenerated "create") literal.members)) = true ∧
    ∃ fault, run (onlyTarget sharedLine) {} = .error (.conflict fault) := by
  decide +kernel

theorem sharedLine_overlap : ∃ literal,
    (SourceFile.parse "Structure.generated.ts" sharedLine.toList).hasErrors = false ∧
    (SourceFile.parse "Structure.generated.ts" sharedLine.toList).tree.Contains literal ∧
    literal.kind = .objectLiteralExpression ∧
    ¬ ∃ change, literal.clearGenerated sharedLine.toList "create" = .ok change := by
  obtain ⟨clean, clashes, -⟩ := sharedLine_evaluated
  have hf : intact (.ofProject (onlyTarget sharedLine)) 0 = .ok _ :=
    intact_eq_ok.2 ⟨rfl, clean⟩
  obtain ⟨literal, hliteral, clash⟩ := (Option.any_eq_true _ _).1 clashes
  obtain ⟨found, isLiteral⟩ := target_contains hf (toOption_eq_some.1 hliteral)
  have := ((removals_overlap_iff (onlyTarget sharedLine) {}).1 "create" clean found
    isLiteral).2.2
  exact ⟨literal, clean, found, isLiteral,
    fun cleared => this.1 cleared (of_decide_eq_true clash)⟩

theorem sharedLine_conflict :
    (SourceFile.parse "Structure.generated.ts" sharedLine.toList).hasErrors = false ∧
      ∃ fault, run (onlyTarget sharedLine) {} = .error (.conflict fault) :=
  have ⟨clean, _, conflict⟩ := sharedLine_evaluated
  ⟨clean, conflict⟩

/-- Two structures and a literal on one line. The second factory comes to stand on one line with the
closing brace. -/
def oneLine : String :=
  "export interface AS \x7b kind: K.A \x7d\nexport interface BS \x7b kind: K.B \x7d\n" ++
    "export const T = \x7b a, \x7d as const\n"

theorem oneLine_rerun_conflict : ∃ o p, run (onlyTarget oneLine) shortNames = .ok o ∧
    o.apply (onlyTarget oneLine) = .ok p ∧
      ∃ fault, run p shortNames = .error (.conflict fault) := by
  have h : ((run (onlyTarget oneLine) shortNames).toOption.any fun o =>
      (o.apply (onlyTarget oneLine)).toOption.any fun p =>
        decide (∃ fault, run p shortNames = .error (.conflict fault))) = true := by
    decide +kernel
  obtain ⟨o, ho, h⟩ := (Option.any_eq_true _ _).1 h
  obtain ⟨p, hp, h⟩ := (Option.any_eq_true _ _).1 h
  exact ⟨o, p, toOption_eq_some.1 ho, toOption_eq_some.1 hp, of_decide_eq_true h⟩

end Generation
end FactorySync
