import FactorySync.Proofs.Rerun

/-!
# How runs on generated files end

On a generated file a run succeeds, unless two factories or a factory and another member would have
one name (`Generation.Ready.run_ends`). So neither is a text that the run makes ever stopped at for
errors nor do edits clash. What a run that succeeds leaves is a generated file, which is read without
errors also where imports come and go (`Generation.Ready.run_leaves`), and whose literal holds the
factories of the catalog behind the members that are not generated. Nothing is lost on the way:
clearing leaves these members, in a file that is read without errors and where there is nothing to
be cleared (`GeneratedFile.Read.clear_again`).
-/

namespace FactorySync

open Parse

namespace GeneratedFile

variable {c : Config} {g : GeneratedFile} {f : SourceFile} {file : FileId} {path : String}

/-- Which members are generated is told by their headings. -/
theorem LiteralAt.kept_headings {pos : Nat} {literal : Node} (h : g.LiteralAt pos literal)
    (role : Role) : ((literal.inRole role).members.filter
        (!·.isGenerated c.generatedPrefix)).map (·.heading) =
      (g.body.entries.filter (!·.isGenerated c)).map (·.member.heading) := by
  let kept (heading : Bool × Option String) : Bool :=
    !(heading.1 && heading.2.any (startsWith · c.generatedPrefix))
  have told := congrArg (List.filter kept) (h.headings role)
  rwa [List.filter_map, List.filter_map] at told

theorem cleared_generatedNames (c : Config) (g : GeneratedFile) :
    (g.cleared c).body.generatedNames c = [] := by
  rw [LiteralBody.generatedNames, cleared_factories, List.filterMap_nil]

/-- What is cleared is read without errors as the members that are not generated, and clearing it
again changes nothing. -/
theorem Read.clear_again (read : g.Read c f) (printable : c.Printable) (proper : g.Proper)
    {p q : Program} (found : p.file? file = some f)
    (cleared : q.file? file = some (.parse path ((g.cleared c).text c))) :
    ∃ literal change literal', Generation.target p file c = .ok literal ∧
      literal.clearGenerated f.text c.generatedPrefix = .ok change ∧
      q.file? file = some (.parse path change.text) ∧
      (SourceFile.parse path change.text).notes = [] ∧
      Generation.target q file c = .ok literal' ∧
      literal'.members.map (·.heading) =
        (literal.members.filter (!·.isGenerated c.generatedPrefix)).map (·.heading) ∧
      literal'.clearGenerated change.text c.generatedPrefix =
        .ok { text := change.text, names := [] } := by
  obtain ⟨literal, isLiteral, target, change⟩ := read.clearGenerated found
  have read' := (proper.cleared c).read printable path
  obtain ⟨literal', isLiteral', target', again⟩ := read'.clearGenerated cleared
  rw [cleared_cleared, cleared_generatedNames, SourceFile.parse_text] at again
  refine ⟨_, _, _, target, change, cleared, read'.notes, target', ?_, again⟩
  rw [isLiteral'.headings, isLiteral.kept_headings, cleared_entries]

end GeneratedFile

namespace Generation

open GeneratedFile

variable {c : Config} {project : Project} {file : FileId} {path : String} {g : GeneratedFile}
  {records : List StructureRecord}

namespace Ready

/-- A run succeeds or tells of a name that would be held twice. -/
theorem run_ends (ready : Ready c project file path records g)
    (paths : ∀ f ∈ project.files, OneLine f.path.toList) :
    g.Free c records ∧ (∃ o, run project c = .ok o) ∨
      ¬ g.Free c records ∧ ∃ x first second,
        run project c = .error (.duplicateName x first second) := by
  by_cases free : g.Free c records
  · obtain ⟨g', added, removed, -, ran, -⟩ := ready.rerun free paths
    exact .inl ⟨free, _, ran⟩
  · obtain ⟨literal, target, isLiteral, -, fails⟩ := ready.clear
    have held := mt (isLiteral.checkNames .expression).1 free
    refine .inr ⟨free, ?_⟩
    cases names : checkNames c (literal.inRole .expression)
        (records.zip (records.map (Factory.ofRecord c))) with
    | ok => exact absurd names held
    | error e =>
      obtain ⟨x, first, second, rfl⟩ := checkNames_eq_error names
      exact ⟨x, first, second, run_eq_error.2 (.inl (fails _ names))⟩

/-- What a run leaves, and what is read in it. -/
theorem run_leaves {o : Outcome} (ready : Ready c project file path records g)
    (paths : ∀ f ∈ project.files, OneLine f.path.toList) (h : run project c = .ok o) :
    ∃ g' q literal, Leaves c records g g' ∧ o.apply project = .ok q ∧
      Holds c q file path g' ∧ g'.Read c (.parse path o.after) ∧
      target (.ofProject q) file c = .ok literal ∧
      literal.members.map (·.heading) =
        (g.body.entries.filter (!·.isGenerated c)).map (·.member.heading) ++
          o.created.map (fun x => (true, some x)) ∧
      literal.HoldsLast c.generatedPrefix o.created := by
  have free : g.Free c records := by
    obtain ⟨free, -⟩ | ⟨-, x, first, second, fails⟩ := ready.run_ends paths
    · exact free
    · rw [fails] at h
      cases h
  obtain ⟨g', added, removed, leaves, ran, -⟩ := ready.rerun free paths
  obtain rfl := Except.ok.inj (h.symm.trans ran)
  have holds := ready.holds.modify g'
  have read := leaves.proper.read ready.printable path
  obtain ⟨literal, isLiteral, target⟩ :=
    read.target (intact_eq_ok.1 (holds.intact ready.printable leaves.proper)).1
  obtain ⟨d, body⟩ := leaves.reconciled
  have headings : (literal.inRole .expression).members.map (·.heading) =
      (g.body.entries.filter (!·.isGenerated c)).map (·.member.heading) ++
        (records.map fun r => (Factory.ofRecord c r).name).map (fun x => (true, some x)) := by
    rw [isLiteral.headings, body, reconciled_body, filled_entries, cleared_entries, List.map_append,
      List.map_map, List.map_map]
    rfl
  obtain ⟨modified, hfile⟩ := ready.holds
  refine ⟨g', _, _, leaves, Project.setText_of_file? hfile _, holds, read, target, headings, ?_⟩
  have kept : (g.body.entries.filter (!·.isGenerated c)).map (·.member.heading) =
      ((g.body.entries.filter (!·.isGenerated c)).map (·.member)).map (·.heading) := by
    rw [List.map_map]
    rfl
  refine Node.holdsLast_of_headings (headings.trans (congrArg (· ++ _) kept)) ?_ ?_
  · exact List.forall_mem_map.2 fun r _ => startsWith_append c.generatedPrefix _
  · refine List.forall_mem_map.2 fun e he => ?_
    obtain ⟨mem, kept⟩ := List.mem_filter.1 he
    have kept : e.isGenerated c = false := by simpa using kept
    exact ⟨kept, free.others e mem kept⟩

end Ready

end Generation
end FactorySync
