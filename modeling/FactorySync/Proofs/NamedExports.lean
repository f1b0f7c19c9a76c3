import FactorySync.Proofs.AddedImports
import FactorySync.Proofs.ExportPaths

/-!
# Which exports are real

A module has an export of a name (`Program.HasExport`) if an exported statement declares it, or if
it is passed on from a module that has it. The default export is one of the name `default` only,
whatever the declaration is called, and an export of everything leaves it out. The lookup of exports
knows neither, so there are two ways to take a default for an export of another name
(`Program.TakesDefault`). Everything that it finds and that does not come to one of them is real
(`Program.mem_exporters`).
-/

namespace FactorySync
namespace Program

variable {p : Program} {t u d : Target} {m : Module} {files : List SourceFile}

/-- A statement of the file is marked `export`, with `default` behind it or not, and declares the
name. -/
def ExportsDeclaration (p : Program) (t : Target) (isDefault : Bool) : Prop :=
  ∃ f n, p.file? t.file = some f ∧ n ∈ f.statements ∧ n.isExported = true ∧
    n.modifiers.isDefault = isDefault ∧ ∃ declared ∈ n.declared, declared.name = t.name

/-- The module has an export of the name. -/
inductive HasExport (p : Program) : Target → Prop
  | declared {t : Target} (h : p.ExportsDeclaration t false) : HasExport p t
  | listed {t : Target} {m : Module} {items : List (String × String)} {name : String}
      (here : p.module? t.file = some m) (listed : .named items none ∈ m.reexports)
      (origin : Reexport.origin? items t.name = some name) (declared : m.declares name = true) :
      HasExport p t
  | named {t : Target} {m : Module} {items : List (String × String)} {specifier name : String}
      {source : FileId} (here : p.module? t.file = some m)
      (listed : .named items (some specifier) ∈ m.reexports)
      (origin : Reexport.origin? items t.name = some name)
      (leads : p.resolveModule? t.file specifier = some source)
      (there : HasExport p ⟨source, name⟩) : HasExport p t
  | imported {t : Target} {m : Module} {items : List (String × String)}
      {name specifier exported : String} {source : FileId} (here : p.module? t.file = some m)
      (listed : .named items none ∈ m.reexports)
      (origin : Reexport.origin? items t.name = some name) (undeclared : m.declares name = false)
      (bound : m.namedImport? name = some (specifier, exported))
      (leads : p.resolveModule? t.file specifier = some source)
      (there : HasExport p ⟨source, exported⟩) : HasExport p t
  | all {t : Target} {m : Module} {specifier : String} {source : FileId}
      (here : p.module? t.file = some m) (star : .all specifier ∈ m.reexports)
      (other : t.name ≠ "default") (leads : p.resolveModule? t.file specifier = some source)
      (there : HasExport p ⟨source, t.name⟩) : HasExport p t

/-- A default export is taken for an export of the name. -/
inductive TakesDefault (p : Program) (t : Target) : Prop
  /-- The name is that of the declaration which is exported as the default. -/
  | declaration (h : p.ExportsDeclaration t true)
  /-- The name is `default`, and another module has it that everything is exported from. -/
  | star {m : Module} {specifier : String} {source : FileId} {d : Target}
      (here : p.module? t.file = some m) (star : .all specifier ∈ m.reexports)
      (default : t.name = "default") (leads : p.resolveModule? t.file specifier = some source)
      (there : p.Reaches ⟨source, t.name⟩ d)

/-- The way of a name comes to a default that is taken for another export. -/
def ComesToDefault (p : Program) (t : Target) : Prop :=
  ∃ u, Relation.ReflTransGen p.PassesOn t u ∧ p.TakesDefault u

theorem exportsOwn_iff (here : (ofFiles files).module? t.file = some m) :
    m.exportsOwn t.name = true ↔ ∃ isDefault, (ofFiles files).ExportsDeclaration t isDefault := by
  rw [ofFiles_module?] at here
  obtain ⟨f, hf, rfl⟩ := Option.map_eq_some_iff.1 here
  have file : (ofFiles files).file? t.file = some f := hf
  simp only [Module.exportsOwn, Module.ofFile, List.any_eq_true, List.mem_flatMap, List.mem_map,
    Bool.and_eq_true, beq_iff_eq]
  constructor
  · rintro ⟨_, ⟨n, hn, declared, hdeclared, rfl⟩, name, exported⟩
    exact ⟨n.modifiers.isDefault, f, n, file, hn, exported, rfl, declared, hdeclared, name⟩
  · rintro ⟨_, f', n, file', hn, exported, -, declared, hdeclared, name⟩
    obtain rfl := Option.some_inj.1 (file.symm.trans file')
    exact ⟨_, ⟨n, hn, declared, hdeclared, rfl⟩, name, exported⟩

theorem ExportsDeclaration.declaredBy {isDefault : Bool}
    (h : (ofFiles files).ExportsDeclaration t isDefault) : (ofFiles files).DeclaredBy t t := by
  obtain ⟨f, n, file, rest⟩ := h
  have here : (ofFiles files).module? t.file = some (Module.ofFile f) := by
    rw [ofFiles_module?]
    exact Option.map_eq_some_iff.2 ⟨f, file, rfl⟩
  exact .own here ((exportsOwn_iff here).2 ⟨isDefault, f, n, file, rest⟩)

/-- A real export leads to a declaration. -/
theorem HasExport.reaches (h : (ofFiles files).HasExport t) : ∃ d, (ofFiles files).Reaches t d := by
  induction h with
  | declared h => exact ⟨_, _, .refl, h.declaredBy⟩
  | listed here listed origin declared => exact ⟨_, _, .refl, .listed here listed origin declared⟩
  | named here listed origin leads _ ih =>
    obtain ⟨d, h⟩ := ih
    exact ⟨d, h.head (.named here listed origin leads)⟩
  | imported here listed origin undeclared bound leads _ ih =>
    obtain ⟨d, h⟩ := ih
    exact ⟨d, h.head (.imported here listed origin undeclared bound leads)⟩
  | all here star _ leads _ ih =>
    obtain ⟨d, h⟩ := ih
    exact ⟨d, h.head (.all here star leads)⟩

theorem TakesDefault.reaches (h : (ofFiles files).TakesDefault t) :
    ∃ d, (ofFiles files).Reaches t d := by
  cases h with
  | declaration h => exact ⟨_, _, .refl, h.declaredBy⟩
  | star here star _ leads there => exact ⟨_, there.head (.all here star leads)⟩

/-- A declaration is reported at the place of a real export, or of a default. -/
theorem DeclaredBy.hasExport (h : (ofFiles files).DeclaredBy t d) :
    (ofFiles files).HasExport t ∨ (ofFiles files).TakesDefault t := by
  cases h with
  | own here own =>
    obtain ⟨isDefault, h⟩ := (exportsOwn_iff here).1 own
    cases isDefault with
    | true => exact .inr (.declaration h)
    | false => exact .inl (.declared h)
  | listed here listed origin declared => exact .inl (.listed here listed origin declared)

/-- A name that is passed on from a real export is one, unless it is passed on as `default` by an
export of everything. -/
theorem HasExport.passedOn (step : p.PassesOn t u) (h : p.HasExport u) (there : p.Reaches u d) :
    p.HasExport t ∨ p.TakesDefault t := by
  cases step with
  | named here listed origin leads => exact .inl (.named here listed origin leads h)
  | imported here listed origin undeclared bound leads =>
    exact .inl (.imported here listed origin undeclared bound leads h)
  | all here star leads =>
    by_cases default : t.name = "default"
    · exact .inr (.star here star default leads there)
    · exact .inl (.all here star default leads h)

/-- What is found for a name is a real export, or the way to it comes to a default. -/
theorem Reaches.hasExport (h : (ofFiles files).Reaches t d) :
    (ofFiles files).HasExport t ∨ (ofFiles files).ComesToDefault t := by
  obtain ⟨v, path, declared⟩ := h
  induction path using Relation.ReflTransGen.head_induction_on with
  | refl => exact declared.hasExport.imp_right fun default => ⟨_, .refl, default⟩
  | head step rest ih =>
    rcases ih with real | ⟨u, onward, default⟩
    · exact (real.passedOn step ⟨_, rest, declared⟩).imp_right fun default => ⟨_, .refl, default⟩
    · exact .inr ⟨u, .head step onward, default⟩

theorem hasExport_or_comesToDefault (files : List SourceFile) (file : FileId) (name : String) :
    ((ofFiles files).resolveExport? file name).isSome = true ↔
      (ofFiles files).HasExport ⟨file, name⟩ ∨ (ofFiles files).ComesToDefault ⟨file, name⟩ := by
  rw [exists_resolveExport?_iff]
  constructor
  · rintro ⟨d, h⟩
    exact h.hasExport
  · rintro (real | ⟨u, path, default⟩)
    · exact real.reaches
    · obtain ⟨d, v, onward, declared⟩ := default.reaches
      exact ⟨d, v, path.trans onward, declared⟩

/-- The files that are found to export a name are those other than the target that really do or from
which the name comes to a default that is taken for another export. A name that is added to the
imports of the target is bound once, to an export of this kind. -/
theorem mem_exporters (files : List SourceFile) (target : FileId) :
    (∀ file name, file ∈ (ofFiles files).exporters name target ↔
      file < files.length ∧ file ≠ target ∧
        ((ofFiles files).HasExport ⟨file, name⟩ ∨ (ofFiles files).ComesToDefault ⟨file, name⟩)) ∧
    ∀ f change, (ofFiles files).reconcileImports target f = .ok change → ∀ x ∈ change.added,
      ((ImportDraft.ofProgram (ofFiles files) target f).bindings.map (·.localName)).count x = 1 ∧
      ∀ b ∈ (ImportDraft.ofProgram (ofFiles files) target f).bindings, b.localName = x →
        b.source = .exported x ∧ ∃ exporter,
          ((ofFiles files).resolveModule? target b.specifier = some exporter ∨ b.specifier =
            Path.specifier ((ofFiles files).path target) ((ofFiles files).path exporter)) ∧
          ((ofFiles files).HasExport ⟨exporter, x⟩ ∨
            (ofFiles files).ComesToDefault ⟨exporter, x⟩) := by
  constructor
  · intro file name
    rw [exporters, List.mem_filter, List.mem_range, Bool.and_eq_true, bne_iff_ne,
      hasExport_or_comesToDefault]
    rfl
  · intro f change h x hx
    obtain ⟨-, added, -⟩ := reconcileImports_eq_ok.1 h
    rw [added] at hx
    refine ⟨ImportDraft.count_added hx, fun b hb name => ?_⟩
    subst name
    obtain ⟨source, exporter, chosen, leads⟩ := ImportDraft.binding_of_added hb hx
    obtain ⟨-, -, found⟩ := ImportDraft.exporter?_exports chosen
    exact ⟨source, exporter, leads, (hasExport_or_comesToDefault files exporter _).1 found⟩

/-! ## Two modules -/

theorem mem_added_of_exporter {file target : FileId} {path x : String} {text : List Char}
    (clean : (SourceFile.parse path text).hasErrors = false)
    (imports : (SourceFile.parse path text).imports.isEmpty = true)
    (free : x ∈ (SourceFile.parse path text).references.free)
    (found : file ∈ p.exporters x target) :
    ∃ change, p.reconcileImports target (.parse path text) = .ok change ∧ x ∈ change.added := by
  obtain ⟨change, h⟩ := p.reconcileImports_isOk target clean
  obtain ⟨-, added, -⟩ := reconcileImports_eq_ok.1 h
  refine ⟨change, h, ?_⟩
  rw [added, ImportDraft.mem_added, ImportDraft.exporter?, ImportDraft.firstLeast_isSome]
  refine ⟨free, fun n hn => ?_, List.ne_nil_of_mem found⟩
  rw [List.isEmpty_iff.1 imports] at hn
  exact absurd hn List.not_mem_nil

/-- A module that lists its declaration under another name, and a file that reads this one. -/
def renamedExport : List SourceFile :=
  [.parse "a.ts" "const X = 1; export \x7b X as Y \x7d".toList, .parse "t.ts" "Y".toList]

/-- What is read from the two files. -/
theorem renamedExport_read :
    ((SourceFile.parse "t.ts" "Y".toList).hasErrors = false ∧
      (SourceFile.parse "t.ts" "Y".toList).imports.isEmpty = true ∧
      "Y" ∈ (SourceFile.parse "t.ts" "Y".toList).references.free) ∧
    ∃ m ∈ (ofFiles renamedExport).module? 0,
      m.reexports = [.named [("Y", "X")] none] ∧ m.declares "X" = true := by
  decide +kernel

theorem renamedExport_hasExport : (ofFiles renamedExport).HasExport ⟨0, "Y"⟩ := by
  obtain ⟨m, here, reexports, declared⟩ := renamedExport_read.2
  have listed : Reexport.named [("Y", "X")] none ∈ m.reexports := by simp [reexports]
  exact .listed here listed rfl declared

/-- The name is found, and it is bound to the real export. -/
theorem renamedExport_added : 0 ∈ (ofFiles renamedExport).exporters "Y" 1 ∧ ∃ change,
    (ofFiles renamedExport).reconcileImports 1 (.parse "t.ts" "Y".toList) = .ok change ∧
      "Y" ∈ change.added ∧ ∀ b ∈ (ImportDraft.ofProgram (ofFiles renamedExport) 1
        (.parse "t.ts" "Y".toList)).bindings, b.localName = "Y" → b.source = .exported "Y" := by
  obtain ⟨clean, imports, free⟩ := renamedExport_read.1
  have found : 0 ∈ (ofFiles renamedExport).exporters "Y" 1 :=
    ((mem_exporters renamedExport 1).1 0 "Y").2
      ⟨Nat.zero_lt_two, Nat.zero_ne_one, .inl renamedExport_hasExport⟩
  obtain ⟨change, h, added⟩ := mem_added_of_exporter clean imports free found
  exact ⟨found, change, h, added, fun b hb name =>
    (((mem_exporters renamedExport 1).2 _ change h "Y" added).2 b hb name).1⟩

/-- A module with a default export that has a name, and a file that reads this name. -/
def namedDefault : List SourceFile :=
  [.parse "a.ts" "export default function X() \x7b\x7d".toList, .parse "t.ts" "X".toList]

/-- What is read from the two files. -/
theorem namedDefault_read :
    ((SourceFile.parse "t.ts" "X".toList).hasErrors = false ∧
      (SourceFile.parse "t.ts" "X".toList).imports.isEmpty = true ∧
      "X" ∈ (SourceFile.parse "t.ts" "X".toList).references.free) ∧
    (∀ m ∈ (ofFiles namedDefault).modules, m.reexports = []) ∧
    ((ofFiles namedDefault).module? 0).any (·.exportsOwn "X") = true ∧
    ∀ f ∈ (ofFiles namedDefault).file? 0, ∀ n ∈ f.statements, n.modifiers.isDefault = true := by
  decide +kernel

/-- The module has no export of the name, but it is taken for an exporter, and the name is added. -/
theorem namedDefault_added : ¬ (ofFiles namedDefault).HasExport ⟨0, "X"⟩ ∧
    0 ∈ (ofFiles namedDefault).exporters "X" 1 ∧ ∃ change,
      (ofFiles namedDefault).reconcileImports 1 (.parse "t.ts" "X".toList) = .ok change ∧
        "X" ∈ change.added := by
  obtain ⟨⟨clean, imports, free⟩, closed, own, defaults⟩ := namedDefault_read
  have found : 0 ∈ (ofFiles namedDefault).exporters "X" 1 := by
    rw [exporters_eq closed, List.mem_filter, own]
    exact ⟨by simp [namedDefault, ofFiles], rfl⟩
  refine ⟨fun real => ?_, found, mem_added_of_exporter clean imports free found⟩
  have passesNothing {m : Module} (here : (ofFiles namedDefault).module? 0 = some m) (e : Reexport) :
      e ∉ m.reexports := by
    rw [closed m (List.mem_of_getElem? here)]
    exact List.not_mem_nil
  cases real with
  | declared h =>
    obtain ⟨f, n, file, hn, -, named, -⟩ := h
    exact absurd (defaults f file n hn) (by simp [named])
  | listed here listed => exact passesNothing here _ listed
  | named here listed => exact passesNothing here _ listed
  | imported here listed => exact passesNothing here _ listed
  | all here star => exact passesNothing here _ star

end Program
end FactorySync
