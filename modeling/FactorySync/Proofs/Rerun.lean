import FactorySync.Proofs.Exchange
import FactorySync.Proofs.GeneratedImports
import FactorySync.Proofs.TypeGuards

/-!
# Running again

A run on a generated file (`GeneratedFile`) leaves a generated file: it takes out the factories
(`GeneratedFile.cleared`), puts in those of the catalog (`GeneratedFile.filled`) and reconciles the
imports (`GeneratedFile.reconciled`), see `Generation.run_generated`. The next run finds the same
catalog and the same exports, since the other files see the same of every generated file
(`GeneratedFile.Read.exchangeable`). So it takes out what it puts in again, and the imports are
reconciled already: it changes nothing (`Generation.rerun_generated`).
-/

namespace FactorySync

/-! ## Other texts of the target -/

namespace Project

variable {p q r : Project}

/-- The other files see the same in both projects. -/
def Resembles (p q : Project) : Prop :=
  Program.Resemble (p.files.map fun f => .parse f.path f.text) (q.files.map fun f => .parse f.path f.text)

namespace Resembles

theorem findFile (h : p.Resembles q) (name : String) :
    (Program.ofProject p).findFile name = (Program.ofProject q).findFile name :=
  Program.Resemble.findFile h name

theorem exporters (h : p.Resembles q) (name : String) (except : FileId) :
    (Program.ofProject p).exporters name except = (Program.ofProject q).exporters name except :=
  Program.Resemble.exporters h name except

theorem catalog (h : p.Resembles q) (c : Config) :
    Catalog.ofProgram (.ofProject p) c = Catalog.ofProgram (.ofProject q) c :=
  Program.Resemble.catalog h c

theorem trans (h : p.Resembles q) (h' : q.Resembles r) : p.Resembles r := Program.Resemble.trans h h'

theorem oneLine (h : p.Resembles q) (paths : ∀ f ∈ p.files, OneLine f.path.toList) (id : FileId) :
    OneLine ((Program.ofProject q).path id).toList := by
  have same : (Program.ofProject p).path id = (Program.ofProject q).path id := Program.Resemble.path h id
  rw [← same, Program.path, Program.ofProject_file?]
  cases hf : p.file? id with
  | none => exact fun a ha => absurd ha (by simp)
  | some f =>
    rw [Option.map_some, Option.map_some, Option.getD_some, SourceFile.parse_path]
    exact paths f (List.mem_of_getElem? hf)

/-- One file is exchanged. -/
theorem modify {file : FileId} {f : ProjectFile} {text : List Char} (hf : p.file? file = some f)
    (exchangeable : (SourceFile.parse f.path f.text).Exchangeable (.parse f.path text)) :
    p.Resembles (p.modify file (.withText text)) := by
  have exchanged {files : List ProjectFile} {file : FileId} (hf : files[file]? = some f) :
      Program.Resemble (files.map fun f => .parse f.path f.text)
        ((files.modify file (.withText text)).map fun f => .parse f.path f.text) := by
    induction files generalizing file with
    | nil => cases hf
    | cons first files ih =>
      cases file with
      | zero =>
        cases hf
        exact .cons (.inr exchangeable) (Program.Resemble.refl _)
      | succ file => exact .cons (.inl rfl) (ih hf)
  exact exchanged hf

end Resembles
end Project

namespace GeneratedFile

variable {c : Config} {g g' : GeneratedFile} {f f' : SourceFile} {records : List StructureRecord}

theorem Read.closed (h : g.Read c f) : f.Closed := ⟨h.interfaces, h.reexports⟩

/-- The other files see the same of every generated file. -/
theorem Read.exchangeable (h : g.Read c f) (h' : g'.Read c f') (path : f.path = f'.path) :
    f.Exchangeable f' where
  path
  declarations := h.declarations.trans h'.declarations.symm
  closed := h.closed
  closed' := h'.closed

/-! ## Factories that come and go -/

theorem cleared_entries (c : Config) (g : GeneratedFile) :
    (g.cleared c).body.entries = g.body.entries.filter (!·.isGenerated c) := by
  rw [cleared]
  cases g.body <;> rfl

theorem cleared_factories (c : Config) (g : GeneratedFile) :
    (g.cleared c).body.entries.filter (·.isGenerated c) = [] := by
  rw [cleared_entries, List.filter_filter]
  exact List.filter_eq_nil_iff.2 fun e _ => by simp

theorem filled_entries (c : Config) (g : GeneratedFile) (records : List StructureRecord) :
    (g.filled c records).body.entries =
      g.body.entries ++ records.map (.ofFactory c (g.layout c)) := by
  rw [filled, LiteralBody.added]
  split
  · next none => rw [List.isEmpty_iff.1 none, List.append_nil]
  · rfl

/-- A run takes its factories for its own. -/
theorem ofFactory_isGenerated (c : Config) (l : MemberLayout) (r : StructureRecord) :
    (Entry.ofFactory c l r).isGenerated c = true :=
  startsWith_append c.generatedPrefix _

theorem ofFactory_name? (c : Config) (l : MemberLayout) (r : StructureRecord) :
    (Entry.ofFactory c l r).member.name? = some (Factory.ofRecord c r).name := rfl

theorem ofFactories_generated (c : Config) (l : MemberLayout) (records : List StructureRecord) :
    (records.map (Entry.ofFactory c l)).filter (·.isGenerated c) = records.map (.ofFactory c l) ∧
      (records.map (Entry.ofFactory c l)).filter (!·.isGenerated c) = [] := by
  refine ⟨List.filter_eq_self.2 ?_, List.filter_eq_nil_iff.2 ?_⟩ <;>
    simp [ofFactory_isGenerated]

/-- The factories that were put in are those that are taken out the next time. -/
theorem filled_generatedNames (c : Config) (g : GeneratedFile) (records : List StructureRecord) :
    ((g.cleared c).filled c records).body.generatedNames c =
      records.map fun r => (Factory.ofRecord c r).name := by
  rw [LiteralBody.generatedNames, filled_entries, List.filter_append, cleared_factories,
    (ofFactories_generated c _ records).1, List.nil_append, List.filterMap_map]
  exact List.filterMap_eq_map_iff_forall_eq_some.2 fun r _ => ofFactory_name? c _ r

/-- What was cleared has nothing in it to be cleared. -/
theorem cleared_cleared (c : Config) (g : GeneratedFile) :
    (g.cleared c).cleared c = g.cleared c := by
  cases body : g.body <;> simp [cleared, body, LiteralBody.cleared]

/-- What was put in is taken out and put in again. -/
theorem refilled (c : Config) (g : GeneratedFile) (records : List StructureRecord) :
    (((g.cleared c).filled c records).cleared c).filled c records =
      (g.cleared c).filled c records := by
  cases records with
  | nil => exact cleared_cleared c g
  | cons r records =>
    have kept : (g.cleared c).body.entries.filter (!·.isGenerated c) = (g.cleared c).body.entries := by
      have again := cleared_entries c (g.cleared c)
      rwa [cleared_cleared, eq_comm] at again
    have left : ((g.cleared c).filled c (r :: records)).cleared c =
        { g.cleared c with body := .members (g.cleared c).body.entries } := by
      rw [filled, LiteralBody.added, if_neg (by simp), cleared]
      dsimp only
      rw [LiteralBody.cleared, List.filter_append, kept, (ofFactories_generated c _ _).2,
        List.append_nil]
    rw [left]
    rfl

theorem Proper.cleared (proper : g.Proper) (c : Config) : (g.cleared c).Proper where
  imports := proper.imports
  entries := by
    rw [cleared_entries]
    exact fun e he => proper.entries e (List.mem_of_mem_filter he)
  breaks := proper.breaks

theorem Proper.filled (proper : g.Proper) (printable : c.Printable)
    (plain : ∀ r ∈ records, r.Plain) : (g.filled c records).Proper where
  imports := proper.imports
  entries := by
    rw [filled_entries]
    exact List.forall_mem_append.2 ⟨proper.entries, List.forall_mem_map.2 fun r hr =>
      Entry.ofFactory_readable (g.layout_blank printable) printable.toPlain (plain r hr)⟩
  breaks := proper.breaks

/-! ## Names that are free -/

/-- The factories of the structures have different names, and no other member has one of them. -/
structure Free (c : Config) (records : List StructureRecord) (g : GeneratedFile) : Prop where
  nodup : (records.map fun r => (Factory.ofRecord c r).name).Nodup
  others : ∀ e ∈ g.body.entries, e.isGenerated c = false → ∀ x, e.member.name? = some x →
    x ∉ records.map fun r => (Factory.ofRecord c r).name

theorem LiteralAt.checkNames {pos : Nat} {literal : Node} (h : g.LiteralAt pos literal) (role : Role) :
    Generation.checkNames c (literal.inRole role)
      (records.zip (records.map (Factory.ofRecord c))) = .ok () ↔ g.Free c records := by
  have names : (records.zip (records.map (Factory.ofRecord c))).map (·.2.name) =
      records.map fun r => (Factory.ofRecord c r).name := by
    have second : (fun made : StructureRecord × Factory => made.2.name) =
        (fun f : Factory => f.name) ∘ Prod.snd := rfl
    rw [second, ← List.map_map, List.map_snd_zip (by simp), List.map_map]
    rfl
  -- whether a member is in the way is told by its heading
  have others : (∀ m ∈ (literal.inRole role).members, m.isGenerated c.generatedPrefix = false →
        ∀ x, m.name? = some x → x ∉ records.map fun r => (Factory.ofRecord c r).name) ↔
      ∀ e ∈ g.body.entries, e.isGenerated c = false → ∀ x, e.member.name? = some x →
        x ∉ records.map fun r => (Factory.ofRecord c r).name := by
    have told := h.headings role
    have first := @List.forall_mem_map _ _ (·.heading) (literal.inRole role).members
      fun heading => (heading.1 && heading.2.any (startsWith · c.generatedPrefix)) = false →
        ∀ x, heading.2 = some x → x ∉ records.map fun r => (Factory.ofRecord c r).name
    rw [told] at first
    exact first.symm.trans List.forall_mem_map
  rw [Generation.checkNames_iff, names, others]
  exact ⟨fun ⟨nodup, others⟩ => ⟨nodup, others⟩, fun ⟨nodup, others⟩ => ⟨nodup, others⟩⟩

/-- Factories are not in their own way. -/
theorem Free.filled (free : g.Free c records) : ((g.cleared c).filled c records).Free c records where
  nodup := free.nodup
  others := by
    rw [filled_entries, cleared_entries]
    refine List.forall_mem_append.2 ⟨fun e he => free.others e (List.mem_of_mem_filter he),
      List.forall_mem_map.2 fun r _ other => ?_⟩
    rw [ofFactory_isGenerated] at other
    cases other

/-- Imports are not in the way of factories. -/
theorem Free.reconciled (free : g.Free c records) (d : ImportDraft) :
    (g.reconciled d).Free c records where
  nodup := free.nodup
  others := free.others

/-! ## Clearing -/

theorem text_around (c : Config) (g : GeneratedFile) : ∃ tail, ∀ body : LiteralBody,
    ({ g with body } : GeneratedFile).text c =
      g.literalFront c ++ (({ g with body } : GeneratedFile).literalText ++ tail) :=
  ⟨" as const;".toList ++ g.newLine.repeated g.ending, fun body => text_eq_front c { g with body }⟩

/-- Clearing the literal takes out the factories, and a generated file is left. -/
theorem Read.clearGenerated {f : SourceFile} {p : Program} {file : FileId} (read : g.Read c f)
    (found : p.file? file = some f) : ∃ literal,
      g.LiteralAt (byteLength (g.literalFront c)) literal ∧
      Generation.target p file c = .ok (literal.inRole .expression) ∧
      (literal.inRole .expression).clearGenerated f.text c.generatedPrefix = .ok {
        text := (g.cleared c).text c
        names := g.body.generatedNames c } := by
  obtain ⟨literal, isLiteral, target⟩ := read.target found
  obtain ⟨tail, text⟩ := text_around c g
  have cleared := isLiteral.clearGenerated (c := c) .expression tail
  have before : g.text c = g.literalFront c ++ (g.literalText ++ tail) := text g.body
  have after : (g.cleared c).text c = g.literalFront c ++ ((g.cleared c).literalText ++ tail) :=
    text (g.body.cleared c)
  rw [← before, ← after, ← read.text] at cleared
  exact ⟨literal, isLiteral, target, cleared⟩

end GeneratedFile

namespace Generation

open GeneratedFile ImportDraft

variable {c : Config} {project : Project} {file : FileId} {path : String} {g g' : GeneratedFile}

/-- The file of the project is the generated file. -/
def Holds (c : Config) (project : Project) (file : FileId) (path : String) (g : GeneratedFile) : Prop :=
  ∃ modified, project.file? file = some ⟨path, g.text c, modified⟩

namespace Holds

theorem intact (h : Holds c project file path g) (printable : c.Printable) (proper : g.Proper) :
    intact (.ofProject project) file = .ok (.parse path (g.text c)) := by
  obtain ⟨modified, hfile⟩ := h
  exact intact_of_file hfile (proper.read printable path).clean

theorem modify (h : Holds c project file path g) (g' : GeneratedFile) :
    Holds c (project.modify file (.withText (g'.text c))) file path g' := by
  obtain ⟨modified, hfile⟩ := h
  exact ⟨_, Project.modify_file? hfile⟩

theorem resembles (h : Holds c project file path g) (printable : c.Printable) (proper : g.Proper)
    (proper' : g'.Proper) : project.Resembles (project.modify file (.withText (g'.text c))) := by
  obtain ⟨modified, hfile⟩ := h
  exact .modify hfile ((proper.read printable path).exchangeable (proper'.read printable path)
    ((SourceFile.parse_path _ _).trans (SourceFile.parse_path _ _).symm))

end Holds

/-- The target of a run is the generated file, and the names that the run writes are no keywords. -/
structure Ready (c : Config) (project : Project) (file : FileId) (path : String)
    (records : List StructureRecord) (g : GeneratedFile) : Prop where
  printable : c.Printable
  proper : g.Proper
  holds : Holds c project file path g
  finds : (Program.ofProject project).findFile c.targetFile = .ok file
  catalog : (Catalog.ofProgram (.ofProject project) c).records c = records
  plain : ∀ r ∈ records, r.Plain

/-! ## The three stages -/

variable {records : List StructureRecord}

namespace Ready

/-- The run finds the literal, and clearing leaves a generated file. -/
theorem clear (ready : Ready c project file path records g) :
    ∃ literal, target (.ofProject project) file c = .ok (literal.inRole .expression) ∧
      g.LiteralAt (byteLength (g.literalFront c)) literal ∧
      (g.Free c records → clear project c = .ok (file, records.map (Factory.ofRecord c), {
        text := (g.cleared c).text c
        names := g.body.generatedNames c })) ∧
      ∀ e, checkNames c (literal.inRole .expression)
          (records.zip (records.map (Factory.ofRecord c))) = .error e →
        Generation.clear project c = .error e := by
  obtain ⟨printable, proper, holds, finds, catalog, -⟩ := ready
  have intact := holds.intact printable proper
  obtain ⟨literal, isLiteral, target, cleared⟩ :=
    (proper.read printable path).clearGenerated (intact_eq_ok.1 intact).1
  refine ⟨literal, target, isLiteral, fun free => ?_, fun e names => ?_⟩
  · have names := isLiteral.checkNames .expression |>.2 free
    simp only [Generation.clear, bind_eq_ok, ofLookup_eq_ok, ofEdits_eq_ok, catalog]
    exact ⟨file, finds, _, intact, _, target, (), names, _, cleared, rfl⟩
  · simp only [Generation.clear, bind_eq_error, ofLookup_eq_ok, catalog]
    exact .inr ⟨file, finds, .inr ⟨_, intact, .inr ⟨_, target, .inl names⟩⟩⟩

end Ready

theorem insert_generated (holds : Holds c project file path g) (printable : c.Printable)
    (proper : g.Proper) (plain : ∀ r ∈ records, r.Plain) :
    insert project c file (records.map (Factory.ofRecord c)) = .ok {
      text := (g.filled c records).text c
      names := records.map fun r => (Factory.ofRecord c r).name } := by
  have intact := holds.intact printable proper
  obtain ⟨literal, isLiteral, target⟩ :=
    (proper.read printable path).target (intact_eq_ok.1 intact).1
  obtain ⟨r, s, sound, reads⟩ := target_reads intact target
  obtain ⟨tail, text⟩ := text_around c g
  have before : g.text c = g.literalFront c ++ (g.literalText ++ tail) := text g.body
  have after : (g.filled c records).text c =
      g.literalFront c ++ ((g.filled c records).literalText ++ tail) :=
    text (g.body.added (records.map (.ofFactory c (g.layout c))))
  have layout := isLiteral.ofLiteral_layout proper printable.targetConst .expression
  rw [SourceFile.parse_text, before] at sound
  rw [before] at layout
  have inserted := isLiteral.insertFactories .expression printable reads sound layout plain
  rw [← before, ← after] at inserted
  rw [← SourceFile.parse_text path (g.text c)] at inserted
  simp only [insert, bind_eq_ok, ofEdits_eq_ok]
  exact ⟨_, intact, _, target, inserted⟩

theorem reconcile_eq_ok {f : SourceFile} {imports : ImportChange}
    (intact : intact (.ofProject project) file = .ok f)
    (h : (Program.ofProject project).reconcileImports file f = .ok imports) :
    reconcile project file = .ok imports := by
  simp only [reconcile, bind_eq_ok, ofEdits_eq_ok]
  exact ⟨f, intact, h⟩

/-- One run of a generated file. What becomes of the imports is left open: it depends on what the
files of the last stage export, which is what the files of the project export. -/
theorem run_generated (ready : Ready c project file path records g) (free : g.Free c records) :
    ∃ last : Project, project.Resembles last ∧
      ∀ imports : ImportChange, (Program.ofProject last).reconcileImports file
          (.parse path (((g.cleared c).filled c records).text c)) = .ok imports →
        run project c = .ok {
          file, path, before := g.text c, after := imports.text
          created := records.map fun r => (Factory.ofRecord c r).name
          removed := g.body.generatedNames c
          importsAdded := imports.added, importsRemoved := imports.removed } := by
  obtain ⟨literal, -, -, clears, -⟩ := ready.clear
  obtain ⟨printable, proper, holds, -, -, plain⟩ := ready
  have filled := (proper.cleared c).filled printable plain
  have holds' := holds.modify (g.cleared c)
  have holds'' := holds'.modify ((g.cleared c).filled c records)
  refine ⟨_, (holds.resembles printable proper (proper.cleared c)).trans
    (holds'.resembles printable (proper.cleared c) filled), fun imports reconciles => ?_⟩
  have reconciled := reconcile_eq_ok (holds''.intact printable filled) reconciles
  obtain ⟨modified, hfile⟩ := holds
  exact run_eq_ok (clears free) hfile (insert_generated holds' printable (proper.cleared c) plain)
    reconciled

/-! ## Two runs -/

/-- Imports do not matter for the members. -/
theorem reconciled_body (g : GeneratedFile) (d : ImportDraft) : (g.reconciled d).body = g.body := rfl

/-- The factories that a run makes are taken out and put in again by the next one. -/
theorem reconciled_refilled (c : Config) (g : GeneratedFile) (records : List StructureRecord)
    (d : ImportDraft) :
    ((((g.cleared c).filled c records).reconciled d).cleared c).filled c records =
      ((g.cleared c).filled c records).reconciled d :=
  congrArg (·.reconciled d) (refilled c g records)

/-- What a run on a generated file leaves: the members that are not generated and the factories of
the catalog, with imports that can be read back. -/
structure Leaves (c : Config) (records : List StructureRecord) (g g' : GeneratedFile) : Prop where
  proper : g'.Proper
  reconciled : ∃ d, g' = ((g.cleared c).filled c records).reconciled d

namespace Ready

/-- A run on a generated file leaves a generated file, which the next run leaves as it is. -/
theorem rerun (ready : Ready c project file path records g) (free : g.Free c records)
    (paths : ∀ f ∈ project.files, OneLine f.path.toList) :
    ∃ g' added removed, Leaves c records g g' ∧
      run project c = .ok {
        file, path, before := g.text c, after := g'.text c
        created := records.map fun r => (Factory.ofRecord c r).name
        removed := g.body.generatedNames c
        importsAdded := added, importsRemoved := removed } ∧
      run (project.modify file (.withText (g'.text c))) c = .ok {
        file, path, before := g'.text c, after := g'.text c
        created := records.map fun r => (Factory.ofRecord c r).name
        removed := records.map fun r => (Factory.ofRecord c r).name
        importsAdded := [], importsRemoved := [] } := by
  obtain ⟨last, resembles, first⟩ := run_generated ready free
  obtain ⟨printable, proper, holds, finds, catalog, plain⟩ := ready
  have filled := (proper.cleared c).filled printable plain
  have read := filled.read printable path
  have outcome := first _ (read.reconcileImports filled printable.targetConst _ _)
  have proper' : (((g.cleared c).filled c records).reconciled (ofProgram (.ofProject last) file
      (.parse path (((g.cleared c).filled c records).text c)))).Proper :=
    filled.reconciled read (resembles.oneLine paths)
  refine ⟨_, _, _, ⟨proper', _, rfl⟩, outcome, ?_⟩
  have resembles' := holds.resembles printable proper proper'
  have ready' : Ready c _ file path records _ := {
    printable, proper := proper', holds := holds.modify _
    finds := (resembles'.findFile c.targetFile).symm.trans finds
    catalog := (congrArg (·.records c) (resembles'.catalog c).symm).trans catalog
    plain }
  obtain ⟨last', resemblesLast, second⟩ := run_generated ready' (free.filled.reconciled _)
  rw [reconciled_refilled] at second
  have read' := proper'.read printable path
  have exporters (x : String) :=
    ((resembles'.trans resemblesLast).exporters x file).symm.trans (resembles.exporters x file)
  have references := read'.references_eq read (congrArg (·.entries) (reconciled_body _ _))
  have again := read'.reconcileImports_again references exporters
  rw [SourceFile.parse_text] at again
  rw [reconciled_body, filled_generatedNames] at second
  have outcome' := second _ again
  dsimp only at outcome'
  exact outcome'

end Ready

/-- The file that a run has worked on. -/
theorem holds_before {o : Outcome} (intact : intact (.ofProject project) o.file =
    .ok (.parse o.path o.before)) (before : o.before = g.text c) :
    Holds c project o.file o.path g := by
  obtain ⟨hfile, -⟩ := intact_eq_ok.1 intact
  rw [Program.ofProject_file?] at hfile
  obtain ⟨⟨path, text, modified⟩, hsource, same⟩ := Option.map_eq_some_iff.1 hfile
  have path := congrArg (·.path) same
  have text := congrArg (·.text) same
  simp only [SourceFile.parse_path, SourceFile.parse_text] at path text
  exact ⟨modified, by rw [hsource, path, text, before]⟩

/-- A run on a generated file leaves a text that the next run leaves as it is. -/
theorem rerun_generated {o : Outcome} (printable : c.Printable) (proper : g.Proper)
    (plain : ∀ r ∈ (Catalog.ofProgram (.ofProject project) c).records c, r.Plain)
    (paths : ∀ f ∈ project.files, OneLine f.path.toList) (before : o.before = g.text c)
    (h : run project c = .ok o) : ∃ q, o.apply project = .ok q ∧
      run q c = .ok { o with
        before := o.after, removed := o.created, importsAdded := [], importsRemoved := [] } := by
  obtain ⟨stages⟩ := run_passage h
  have holds := holds_before stages.before_intact before
  have ready : Ready c project o.file o.path _ g :=
    ⟨printable, proper, holds, stages.finds, rfl, plain⟩
  obtain ⟨literal, isTarget, isLiteral, -, -⟩ := ready.clear
  have same : literal.inRole .expression = stages.literal :=
    Except.ok.inj (isTarget.symm.trans stages.literal_target)
  have names := stages.names
  rw [← same] at names
  have free := (isLiteral.checkNames .expression).1 names
  obtain ⟨g', added, removed, -, first, second⟩ := ready.rerun free paths
  obtain ⟨modified, hfile⟩ := holds
  refine ⟨_, Project.setText_of_file? hfile o.after, ?_⟩
  have same := Except.ok.inj (h.symm.trans first)
  have after := congrArg (·.after) same
  have created := congrArg (·.created) same
  dsimp only at after created
  rw [after, created]
  exact second

/-- `isClass(structure: \x7b kind?: StructureKind \x7d): boolean \x7b … \x7d` -/
def classGuard : GuardTerm where
  name := "isClass"
  parameter := "structure"
  property := "kind"
  enum := "StructureKind"
  kind := "Class"

/-- A factory of a structure that is gone. -/
def oldFactory : FactoryTerm where
  name := "createOld"
  parameterType := .reference "OptionalKind" [] [.reference "OldStructure" [] []]
  result := "OldStructure"
  value := { parameter := "structure", enum := "StructureKind", kind := "Old" }

/-- Two imports and, behind an empty line, a type guard with a doc comment and an old factory. -/
def guardedFile : GeneratedFile where
  imports := [
    (.double, { items := [{ exported := "StructureKind" }], specifier := "./StructureKind" }),
    (.double, { items := [{ exported := "Obsolete" }], specifier := "./Obsolete" })]
  gap := 1
  body := .members [
    classGuard.entry "    /** Type guard. */\n    ".toList "\n        ".toList "\n    ".toList,
    oldFactory.entry "    ".toList "\n        ".toList "\n    ".toList]

example : guardedFile.text {} = [
    "import \x7b StructureKind \x7d from \"./StructureKind\";",
    "import \x7b Obsolete \x7d from \"./Obsolete\";",
    "",
    "export const Structure = \x7b",
    "    /** Type guard. */",
    "    isClass(structure: \x7b kind?: StructureKind \x7d): boolean \x7b",
    "        return structure.kind === StructureKind.Class;",
    "    \x7d,",
    "    createOld(structure: OptionalKind<OldStructure>): OldStructure \x7b",
    "        return \x7b ...structure, kind: StructureKind.Old \x7d;",
    "    \x7d,",
    "\x7d as const;"].flatMap (·.toList ++ ['\n']) := by
  decide +kernel

theorem guardedFile_proper : guardedFile.Proper where
  imports := by
    have named {x path : String} (word : IsWord x) (line : OneLine path.toList) :
        ({ items := [{ exported := x }], specifier := path } : Import).Readable :=
      ⟨⟨nofun, nofun, List.forall_mem_singleton.2 ⟨word, nofun, nofun⟩, nofun, nofun⟩, rfl, line⟩
    exact List.forall_mem_cons.2 ⟨named (by decide +kernel) (by decide),
      List.forall_mem_singleton.2 (named (by decide +kernel) (by decide))⟩
  entries := by
    have outer : Trivia.Passes "    ".toList false := .blanks (List.all_eq_true.1 rfl)
    have inner : Trivia.Passes "        ".toList false := .blanks (List.all_eq_true.1 rfl)
    have behind : Trivia.Passes "\n    ".toList true := (Trivia.Passes.newLine .lf).append outer
    have inside : Trivia.Passes "\n        ".toList true := (Trivia.Passes.newLine .lf).append inner
    have documented : Trivia.Passes "    /** Type guard. */\n    ".toList true :=
      outer.append ((Trivia.Passes.docComment (by decide : '*' ∉ "Type guard. ".toList)).append behind)
    have guard : classGuard.Fits :=
      ⟨by decide +kernel, by decide +kernel, by decide +kernel, by decide +kernel, by decide +kernel⟩
    have old : IsPlain "OldStructure" := by decide +kernel
    have argument : TypeTerm.Fits .whole (.reference "OldStructure" [] []) :=
      .ofName old.word old.kind nofun
    have factory : oldFactory.Fits := {
      word := by decide +kernel, parameter := by decide +kernel, enum := by decide +kernel
      kind := by decide +kernel, result := ⟨old.word, old.kind⟩
      parameterType := .ofName (by decide +kernel) (by decide +kernel)
        (List.forall_mem_singleton.2 argument) }
    exact List.forall_mem_cons.2 ⟨guard.entry_readable documented inside behind,
      List.forall_mem_singleton.2 (factory.entry_readable outer inside behind (by decide))⟩
  breaks := .inl rfl

/-- A project with one structure and the file. -/
def guardedTarget : Project where
  files := [
    { path := "ClassStructure.ts"
      text := "export interface ClassStructure \x7b kind: StructureKind.Class \x7d".toList },
    { path := "Structure.generated.ts", text := guardedFile.text {} }]

theorem guardedTarget_ready : Ready {} guardedTarget 1 "Structure.generated.ts"
    [⟨"ClassStructure", "Class"⟩] guardedFile where
  printable := {
    generatedPrefix := by decide +kernel, kindEnum := by decide +kernel
    optionalKindType := by decide +kernel, targetConst := by decide +kernel
    indent := List.all_eq_true.1 rfl }
  proper := guardedFile_proper
  holds := ⟨false, rfl⟩
  finds := toOption_eq_some.1 (by decide +kernel)
  catalog := by decide +kernel
  plain := List.forall_mem_singleton.2 ⟨by decide +kernel, by decide +kernel⟩

theorem createClass_name :
    (Factory.ofRecord {} ⟨"ClassStructure", "Class"⟩).name = "createClass" := by
  decide

theorem guardedFile_free : guardedFile.Free {} [⟨"ClassStructure", "Class"⟩] := by
  have others : ∀ e ∈ guardedFile.body.entries, e.isGenerated {} = false →
      ∀ x ∈ e.member.name?, x ≠ "createClass" := by
    decide +kernel
  refine ⟨List.nodup_singleton _, fun e he other x hx => ?_⟩
  rw [List.map_singleton, createClass_name, List.mem_singleton]
  exact others e he other x hx

theorem rerun_guardedTarget : ∃ o q, run guardedTarget {} = .ok o ∧
    o.removed = ["createOld"] ∧ o.created = ["createClass"] ∧ o.apply guardedTarget = .ok q ∧
      run q {} = .ok { o with
        before := o.after, removed := o.created, importsAdded := [], importsRemoved := [] } := by
  have ready := guardedTarget_ready
  have paths : ∀ f ∈ guardedTarget.files, OneLine f.path.toList := by decide
  have removed : guardedFile.body.generatedNames {} = ["createOld"] := by decide +kernel
  obtain ⟨g', added, dropped, -, ran, -⟩ := ready.rerun guardedFile_free paths
  obtain ⟨q, applied, again⟩ := rerun_generated ready.printable ready.proper
    (by rw [ready.catalog]; exact ready.plain) paths rfl ran
  exact ⟨_, q, ran, removed, congrArg ([·]) createClass_name, applied, again⟩

end Generation
end FactorySync
