import FactorySync.Factory.Generate
import FactorySync.Proofs.Calls
import FactorySync.Proofs.Edits
import FactorySync.Proofs.Target

/-!
# The stages of a run

A run is a chain of steps that look up, check, edit and store, each of which fails in its own way
only. Hence the kind of a problem tells which steps can have caused it. A stage that works on the
target file goes on only if the file has no errors (`Generation.intact_eq_ok`), so the literal it
then finds is one of which the layout is known (`Generation.target_reads`).
-/

namespace FactorySync

namespace Generation

open GenerationProblem (ofLookup ofEdits ofProject)

variable {α : Type} {a : α} {e : GenerationProblem}

theorem ofLookup_eq_ok {x : Except LookupProblem α} : ofLookup x = .ok a ↔ x = .ok a := by
  cases x <;> simp [ofLookup]

theorem ofLookup_eq_error {x : Except LookupProblem α} :
    ofLookup x = .error e ↔ ∃ problem, x = .error problem ∧ .lookup problem = e := by
  cases x <;> simp [ofLookup]

theorem ofEdits_eq_ok {x : Except Edit.Fault α} : ofEdits x = .ok a ↔ x = .ok a := by
  cases x <;> simp [ofEdits]

theorem ofEdits_eq_error {x : Except Edit.Fault α} :
    ofEdits x = .error e ↔ ∃ fault, x = .error fault ∧ .conflict fault = e := by
  cases x <;> simp [ofEdits]

theorem ofProject_eq_ok {x : Except ProjectProblem α} : ofProject x = .ok a ↔ x = .ok a := by
  cases x <;> simp [ofProject]

theorem ofProject_eq_error {x : Except ProjectProblem α} :
    ofProject x = .error e ↔ ∃ problem, x = .error problem ∧ .project problem = e := by
  cases x <;> simp [ofProject]

/-! ## Names that are held once -/

variable {c : Config} {literal : Node}

theorem rivals?_eq_some {made rest : List (StructureRecord × Factory)}
    (h : rivals? made rest = some e) :
    ∃ name first second, .duplicateName name first second = e := by
  induction rest generalizing made with
  | nil => exact nomatch h
  | cons r rest ih =>
    rw [rivals?] at h
    split at h
    · exact ⟨_, _, _, Option.some.inj h⟩
    · exact ih h

theorem collision?_eq_some {made : List (StructureRecord × Factory)}
    (h : collision? c literal made = some e) :
    ∃ name first second, .duplicateName name first second = e := by
  obtain ⟨m, -, hm⟩ := List.exists_of_findSome?_eq_some h
  obtain ⟨name, -, hm⟩ := Option.bind_eq_some_iff.1 hm
  obtain ⟨first, -, hm⟩ := Option.bind_eq_some_iff.1 hm
  exact ⟨_, _, _, Option.some.inj hm⟩

theorem checkNames_eq_ok {made : List (StructureRecord × Factory)} :
    checkNames c literal made = .ok () ↔
      (rivals? [] made <|> collision? c literal made) = none := by
  unfold checkNames
  split
  · next h => simp [h]
  · next h => simp [h]

theorem checkNames_eq_error {made : List (StructureRecord × Factory)}
    (h : checkNames c literal made = .error e) :
    ∃ name first second, .duplicateName name first second = e := by
  unfold checkNames at h
  split at h
  · next problem hproblem =>
    cases h
    rw [Option.orElse_eq_orElse, Option.orElse_eq_or, Option.or_eq_some_iff] at hproblem
    rcases hproblem with h | ⟨-, h⟩
    · exact rivals?_eq_some h
    · exact collision?_eq_some h
  · exact nomatch h

/-! ## The target file -/

variable {p : Program} {project : Project} {file : FileId} {f : SourceFile}

theorem intact_eq_ok : intact p file = .ok f ↔ p.file? file = some f ∧ f.hasErrors = false := by
  unfold intact
  split
  · next hfile => simp [hfile]
  · next g hfile =>
    rw [hfile]
    split
    · next broken =>
      refine ⟨fun h => (nomatch h), ?_⟩
      rintro ⟨heq, clean⟩
      cases heq
      exact absurd broken (by simp [clean])
    · next clean =>
      constructor
      · intro h
        cases h
        exact ⟨rfl, by simpa using clean⟩
      · rintro ⟨heq, -⟩
        cases heq
        rfl

theorem intact_eq_error : intact p file = .error e ↔
    (p.file? file = none ∧ .project (.unknownFile file) = e) ∨
      ∃ f, p.file? file = some f ∧ f.hasErrors = true ∧ .broken f.path f.renderNotes = e := by
  unfold intact
  split
  · next hfile => simp [hfile]
  · next g hfile =>
    rw [hfile]
    split
    · next broken => simp [broken]
    · next clean => simp [clean]

/-- A file of a project is intact if its text is read without errors. -/
theorem intact_of_file {path : String} {text : List Char} {modified : Bool}
    (h : project.file? file = some ⟨path, text, modified⟩)
    (clean : (SourceFile.parse path text).hasErrors = false) :
    intact (.ofProject project) file = .ok (.parse path text) :=
  intact_eq_ok.2 ⟨by rw [Program.ofProject_file?, h, Option.map_some], clean⟩

/-- An intact file is a text that was read without errors. -/
theorem exists_parse (h : intact (.ofProject project) file = .ok f) :
    ∃ path text, f = .parse path text ∧ (SourceFile.parse path text).hasErrors = false := by
  obtain ⟨hfile, clean⟩ := intact_eq_ok.1 h
  rw [Program.ofProject_file?] at hfile
  obtain ⟨source, -, rfl⟩ := Option.map_eq_some_iff.1 hfile
  exact ⟨_, _, rfl, clean⟩

/-- The target is an object literal of its file. -/
theorem target_contains (hf : intact p file = .ok f) (h : target p file c = .ok literal) :
    f.tree.Contains literal ∧ literal.kind = .objectLiteralExpression :=
  Program.findLiteral_contains (ofLookup_eq_ok.1 h) (intact_eq_ok.1 hf).1

/-- The target stands for what is consumed somewhere in its file. -/
theorem target_reads (hf : intact (.ofProject project) file = .ok f)
    (h : target (.ofProject project) file c = .ok literal) :
    ∃ r s, r.Sound f.text ∧ Parse.Reads r literal s := by
  obtain ⟨found, isLiteral⟩ := target_contains hf h
  obtain ⟨path, text, rfl, clean⟩ := exists_parse hf
  rw [SourceFile.parse_text]
  exact SourceFile.reads_of_contains clean found (by simp [isLiteral])

/-! ## Whole runs -/

/-- The factories of a project, in the order of its catalog. -/
def factories (project : Project) (c : Config) : List Factory :=
  ((Catalog.ofProgram (.ofProject project) c).records c).map (Factory.ofRecord c)

/-- A target that is cleared is a file of the project. -/
theorem clear_eq_ok {factories : List Factory} {cleared : MemberChange}
    (h : clear project c = .ok (file, factories, cleared)) :
    (Program.ofProject project).findFile c.targetFile = .ok file ∧
      ∃ source, project.file? file = some source := by
  simp only [clear, bind_eq_ok, ofLookup_eq_ok] at h
  obtain ⟨file', found, f, hf, _, _, _, _, _, _, h⟩ := h
  cases h
  refine ⟨found, ?_⟩
  obtain ⟨hfile, -⟩ := intact_eq_ok.1 hf
  rw [Program.ofProject_file?] at hfile
  obtain ⟨source, hsource, -⟩ := Option.map_eq_some_iff.1 hfile
  exact ⟨source, hsource⟩

/-- A run fails if one of its three stages does. Storing the texts in between does not fail. -/
theorem run_eq_error : run project c = .error e ↔ clear project c = .error e ∨
    ∃ file factories cleared, clear project c = .ok (file, factories, cleared) ∧
      (insert (project.modify file (.withText cleared.text)) c file factories = .error e ∨
        ∃ inserted,
          insert (project.modify file (.withText cleared.text)) c file factories = .ok inserted ∧
          reconcile ((project.modify file (.withText cleared.text)).modify file
            (.withText inserted.text)) file = .error e) := by
  rw [run]
  cases hclear : clear project c with
  | error e' => simp [bind, Except.bind]
  | ok stage =>
    obtain ⟨file, factories, cleared⟩ := stage
    obtain ⟨-, source, hsource⟩ := clear_eq_ok hclear
    have hcleared := Project.modify_file? (g := .withText cleared.text) hsource
    have stored := Project.setText_of_file? hsource cleared.text
    have stored' := Project.setText_of_file? hcleared
    simp only [bind_eq_error, ofProject_eq_ok, ofProject_eq_error, exists_eq_left', stored, stored',
      reduceCtorEq, false_and, and_false, exists_false, false_or, or_false, Except.ok.injEq,
      Prod.mk.injEq, pure, Except.pure]
    refine ⟨fun h => ⟨file, factories, cleared, ⟨rfl, rfl, rfl⟩, h⟩, ?_⟩
    rintro ⟨_, _, _, ⟨rfl, rfl, rfl⟩, h⟩
    exact h

/-- What a run that succeeds comes by: the literal it clears, the text that leaves, the literal
there, to which it adds the factories, and the text with them. -/
structure Passage (project : Project) (c : Config) (o : Outcome) where
  literal : Node
  cleared : List Char
  room : Node
  filled : List Char
  finds : (Program.ofProject project).findFile c.targetFile = .ok o.file
  before_intact : intact (.ofProject project) o.file = .ok (.parse o.path o.before)
  literal_target : target (.ofProject project) o.file c = .ok literal
  names : checkNames c literal
    (((Catalog.ofProgram (.ofProject project) c).records c).zip (factories project c)) = .ok ()
  clears : literal.clearGenerated o.before c.generatedPrefix = .ok ⟨cleared, o.removed⟩
  cleared_intact : intact (.ofProject (project.modify o.file (.withText cleared))) o.file =
    .ok (.parse o.path cleared)
  room_target : target (.ofProject (project.modify o.file (.withText cleared))) o.file c = .ok room
  fills : room.insertFactories cleared (factories project c) c.indent = .ok ⟨filled, o.created⟩
  filled_intact : intact (.ofProject ((project.modify o.file (.withText cleared)).modify o.file
    (.withText filled))) o.file = .ok (.parse o.path filled)
  reconciles : (Program.ofProject ((project.modify o.file (.withText cleared)).modify o.file
    (.withText filled))).reconcileImports o.file (.parse o.path filled) =
      .ok ⟨o.after, o.importsAdded, o.importsRemoved⟩

theorem intact_file {source : ProjectFile} (h : project.file? file = some source)
    (hf : intact (.ofProject project) file = .ok f) : f = .parse source.path source.text := by
  have hfile := (intact_eq_ok.1 hf).1
  rw [Program.ofProject_file?, h] at hfile
  exact (Option.some.inj hfile).symm

/-- A run that succeeds goes through all three stages. -/
theorem run_passage {o : Outcome} (h : run project c = .ok o) : Nonempty (Passage project c o) := by
  rw [run, bind_eq_ok] at h
  obtain ⟨⟨file, factories, cleared⟩, hclear, h⟩ := h
  obtain ⟨finds, source, hsource⟩ := clear_eq_ok hclear
  have hcleared := Project.modify_file? (g := .withText cleared.text) hsource
  have stored := Project.setText_of_file? hsource cleared.text
  have stored' := Project.setText_of_file? hcleared
  simp only [bind_eq_ok, ofProject_eq_ok, stored, stored', Except.ok.injEq, exists_eq_left',
    hsource, Option.getD_some] at h
  obtain ⟨inserted, hinsert, imports, hreconcile, h⟩ := h
  have hfilled := Project.modify_file? (g := .withText inserted.text) hcleared
  cases h
  simp only [clear, bind_eq_ok, ofLookup_eq_ok, ofEdits_eq_ok] at hclear
  obtain ⟨_, -, f, hf, literal, hliteral, _, names, _, clears, heq⟩ := hclear
  cases heq
  obtain rfl := intact_file hsource hf
  rw [SourceFile.parse_text] at clears
  simp only [insert, bind_eq_ok, ofEdits_eq_ok] at hinsert
  obtain ⟨f, hf', room, hroom, fills⟩ := hinsert
  obtain rfl := intact_file hcleared hf'
  rw [SourceFile.parse_text] at fills
  simp only [reconcile, bind_eq_ok, ofEdits_eq_ok] at hreconcile
  obtain ⟨f, hf'', reconciles⟩ := hreconcile
  obtain rfl := intact_file hfilled hf''
  exact ⟨{
    literal, cleared := cleared.text, room, filled := inserted.text, finds, before_intact := hf
    literal_target := hliteral, names, clears, cleared_intact := hf', room_target := hroom
    fills, filled_intact := hf'', reconciles }⟩

theorem run_eq_ok {source : ProjectFile} {made : List Factory} {cleared filled : List Char}
    {removed created : List String} {imports : ImportChange}
    (hclear : clear project c = .ok (file, made, ⟨cleared, removed⟩))
    (hsource : project.file? file = some source)
    (hinsert : insert (project.modify file (.withText cleared)) c file made =
      .ok ⟨filled, created⟩)
    (hreconcile : reconcile ((project.modify file (.withText cleared)).modify file
      (.withText filled)) file = .ok imports) :
    run project c = .ok {
      file, path := source.path, before := source.text, after := imports.text, created, removed
      importsAdded := imports.added, importsRemoved := imports.removed } := by
  have stored := Project.setText_of_file? hsource cleared
  have stored' := Project.setText_of_file?
    (Project.modify_file? (g := .withText cleared) hsource) filled
  have ok {α β : Type} (a : α) (f : α → Except GenerationProblem β) : (.ok a >>= f) = f a := rfl
  simp only [run, hclear, ok, ofProject, stored, hinsert, stored', hreconcile, hsource,
    Option.getD_some]
  rfl

/-! ## Small projects -/

/-- A project with one file, the target. -/
def onlyTarget (text : String) : Project :=
  { files := [{ path := "Structure.generated.ts", text := text.toList }] }

/-- Short names, for texts that are small enough to evaluate runs on them. -/
def shortNames : Config where
  targetConst := "T"
  kindEnum := "K"
  optionalKindType := "O"
  structureSuffix := "S"
  generatedPrefix := "c"
  indent := " "

end Generation
end FactorySync
