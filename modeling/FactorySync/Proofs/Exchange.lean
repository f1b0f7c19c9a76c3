import FactorySync.Factory.Catalog
import FactorySync.Program.Target
import FactorySync.Proofs.ExportPaths
import FactorySync.Proofs.Inheritance

/-!
# Files that can be exchanged

A file that declares no interface and passes nothing on is known to the other files by its path and
its declarations only. Where such a file gives way to another one with the same path and declarations
(`SourceFile.Exchangeable`), every export leads where it led before (`Program.Resemble.exporters`), and
the catalog stays the same (`Program.Resemble.catalog`): what the imports of the file bind matters to
the file alone.
-/

namespace FactorySync

namespace Search

variable {α β : Type} {steps : α → List (Step α β)} {entered : List α} {todo : List (Step α β)}
  {result result' : Option β}

/-- The search comes to one end only. -/
theorem Ends.unique (h : Ends steps entered todo result) (h' : Ends steps entered todo result') :
    result = result' := by
  induction h with
  | nothing =>
    cases h'
    rfl
  | answer =>
    cases h'
    rfl
  | again before _ ih =>
    cases h' with
    | again _ rest => exact ih rest
    | enter new _ => exact absurd before new
  | enter new _ ih =>
    cases h' with
    | again before _ => exact absurd before new
    | enter _ rest => exact ih rest

end Search

/-! ## What other files see of a file -/

/-- The file declares no interface and passes nothing on. -/
structure SourceFile.Closed (f : SourceFile) : Prop where
  interfaces : f.statements.filter (·.kind == .interfaceDeclaration) = []
  reexports : (Module.ofFile f).reexports = []

/-- The other files see the same, whichever of the two files there is. -/
structure SourceFile.Exchangeable (f f' : SourceFile) : Prop where
  path : f.path = f'.path
  declarations : (Module.ofFile f).declarations = (Module.ofFile f').declarations
  closed : f.Closed
  closed' : f'.Closed

theorem SourceFile.Exchangeable.trans {f g h : SourceFile} (first : f.Exchangeable g)
    (second : g.Exchangeable h) : f.Exchangeable h where
  path := first.path.trans second.path
  declarations := first.declarations.trans second.declarations
  closed := first.closed
  closed' := second.closed'

namespace Program

/-- Each file of the one program is a file of the other one or has been exchanged. -/
def Resemble (files files' : List SourceFile) : Prop :=
  List.Forall₂ (fun f f' => f = f' ∨ f.Exchangeable f') files files'

namespace Resemble

variable {files files' files'' : List SourceFile}

theorem refl (files : List SourceFile) : Resemble files files :=
  List.forall₂_same.2 fun _ _ => .inl rfl

theorem trans (h : Resemble files files') (h' : Resemble files' files'') :
    Resemble files files'' := by
  induction h generalizing files'' with
  | nil => exact h'
  | cons first _ ih =>
    obtain ⟨f, files, second, others, rfl⟩ := List.forall₂_cons_left_iff.1 h'
    refine .cons ?_ (ih others)
    obtain rfl | first := first
    · exact second
    · obtain rfl | second := second
      · exact .inr first
      · exact .inr (first.trans second)

theorem getElem? (h : Resemble files files') (id : FileId) : files[id]? = files'[id]? ∨
    ∃ f f', files[id]? = some f ∧ files'[id]? = some f' ∧ f.Exchangeable f' := by
  induction h generalizing id with
  | nil => exact .inl rfl
  | @cons f f' files files' first others ih =>
    cases id with
    | zero =>
      obtain rfl | exchanged := first
      · exact .inl rfl
      · exact .inr ⟨f, f', rfl, rfl, exchanged⟩
    | succ id => exact ih id

theorem paths (h : Resemble files files') : files.map (·.path) = files'.map (·.path) := by
  induction h with
  | nil => rfl
  | cons first others ih =>
    rw [List.map_cons, List.map_cons, ih]
    obtain rfl | exchanged := first
    · rfl
    · rw [exchanged.path]

/-! ## Paths -/

theorem path (h : Resemble files files') (id : FileId) :
    (ofFiles files).path id = (ofFiles files').path id := by
  have same := congrArg (·[id]?) h.paths
  simp only [List.getElem?_map] at same
  rw [Program.path, Program.path, file?, file?]
  exact congrArg (·.getD "") same

theorem position? (h : Resemble files files') :
    (ofFiles files).position? = (ofFiles files').position? := by
  funext path
  have same := congrArg (List.findIdx? (· == path)) h.paths
  rw [List.findIdx?_map, List.findIdx?_map] at same
  exact same

theorem findFile (h : Resemble files files') (name : String) :
    (ofFiles files).findFile name = (ofFiles files').findFile name := by
  have same := congrArg (List.findIdx? (Path.endsWithName · name)) h.paths
  rw [List.findIdx?_map, List.findIdx?_map] at same
  have endings : (ofFiles files).files.findIdx? (Path.endsWithName ·.path name) =
      (ofFiles files').files.findIdx? (Path.endsWithName ·.path name) := same
  rw [Program.findFile, Program.findFile, h.position?, endings]

/-! ## Exports -/

theorem resolveModule? (h : Resemble files files') (source : FileId) (specifier : String) :
    (ofFiles files).resolveModule? source specifier =
      (ofFiles files').resolveModule? source specifier := by
  rw [Program.resolveModule?, Program.resolveModule?, h.path, h.position?]

theorem through (h : Resemble files files') : (ofFiles files).through = (ofFiles files').through := by
  funext source specifier name
  rw [Program.through, Program.through, h.resolveModule?]

theorem localSteps (h : Resemble files files') :
    (ofFiles files).localSteps = (ofFiles files').localSteps := by
  funext file m name
  rw [Program.localSteps, Program.localSteps, h.through]

theorem exportSteps (h : Resemble files files') :
    (ofFiles files).exportSteps = (ofFiles files').exportSteps := by
  funext t
  rw [Program.exportSteps, Program.exportSteps, ofFiles_module?, ofFiles_module?]
  obtain same | ⟨f, f', hf, hf', exchanged⟩ := h.getElem? t.file
  · rw [same]
    have steps : (ofFiles files).reexportSteps = (ofFiles files').reexportSteps := by
      funext file m name r
      cases r with
      | named items specifier => simp only [Program.reexportSteps, h.through, h.localSteps]
      | all specifier => rfl
    have stars : (ofFiles files).starSteps = (ofFiles files').starSteps := by
      funext file name r
      cases r with
      | named items specifier => rfl
      | all specifier => rw [Program.starSteps, Program.starSteps, h.through]
    rw [steps, stars]
  · have own : (Module.ofFile f).exportsOwn t.name = (Module.ofFile f').exportsOwn t.name := by
      rw [Module.exportsOwn, Module.exportsOwn, exchanged.declarations]
    simp only [hf, hf', Option.map_some, own, exchanged.closed.reexports,
      exchanged.closed'.reexports, List.flatMap_nil]

theorem resolveExport? (h : Resemble files files') (file : FileId) (name : String) :
    (ofFiles files).resolveExport? file name = (ofFiles files').resolveExport? file name := by
  have ends := resolveExport?_ends files file name
  rw [h.exportSteps] at ends
  exact ends.unique (resolveExport?_ends files' file name)

theorem exporters (h : Resemble files files') (name : String) (except : FileId) :
    (ofFiles files).exporters name except = (ofFiles files').exporters name except := by
  have length : (ofFiles files).files.length = (ofFiles files').files.length := List.Forall₂.length_eq h
  rw [Program.exporters, Program.exporters, length]
  exact List.filter_congr fun id _ => by rw [h.resolveExport?]

/-! ## Interfaces -/

theorem allInterfaceDeclarations (h : Resemble files files') :
    allInterfaceDeclarations files = allInterfaceDeclarations files' := by
  have behind (start : Nat) : (files.zipIdx start).flatMap (fun f => interfaceDeclarations f.1 f.2) =
      (files'.zipIdx start).flatMap fun f => interfaceDeclarations f.1 f.2 := by
    induction h generalizing start with
    | nil => rfl
    | @cons f f' files files' first others ih =>
      rw [List.zipIdx_cons, List.zipIdx_cons, List.flatMap_cons, List.flatMap_cons, ih]
      obtain rfl | exchanged := first
      · rfl
      · rw [interfaceDeclarations, interfaceDeclarations, exchanged.closed.interfaces,
          exchanged.closed'.interfaces, List.map_nil]
  exact behind 0

theorem interfaces (h : Resemble files files') :
    (ofFiles files).interfaces = (ofFiles files').interfaces := by
  rw [ofFiles, ofFiles, h.allInterfaceDeclarations]

theorem interface? (h : Resemble files files') :
    (ofFiles files).interface? = (ofFiles files').interface? := by
  funext id
  rw [Program.interface?, Program.interface?, h.interfaces]

theorem hasInterface (h : Resemble files files') :
    (ofFiles files).hasInterface = (ofFiles files').hasInterface := by
  funext id
  rw [Program.hasInterface, Program.hasInterface, h.interface?]

/-- A file with an interface has not been exchanged. -/
theorem same_of_mem {id : InterfaceId} (h : Resemble files files')
    (found : id ∈ (ofFiles files).interfaces.map (·.id)) : files[id.file]? = files'[id.file]? := by
  obtain ⟨i, hi, rfl⟩ := List.mem_map.1 found
  obtain ⟨id, hid, rfl⟩ := List.mem_map.1 hi
  rw [List.mem_eraseDups, List.mem_map] at hid
  obtain ⟨d, hd, rfl⟩ := hid
  obtain ⟨⟨f, number⟩, hf, hd⟩ := List.mem_flatMap.1 hd
  obtain ⟨n, hn, rfl⟩ := List.mem_map.1 hd
  have stands : files[number]? = some f := by simpa using List.mem_zipIdx_iff_getElem?.1 hf
  obtain same | ⟨g, g', hg, hg', exchanged⟩ := h.getElem? number
  · exact same
  · cases stands.symm.trans hg
    rw [exchanged.closed.interfaces] at hn
    cases hn

/-- The names in a file that has not been exchanged mean the same interfaces. -/
theorem resolveInterface? {file : FileId} (h : Resemble files files')
    (same : files[file]? = files'[file]?) :
    (ofFiles files).resolveInterface? file = (ofFiles files').resolveInterface? file := by
  have sameModule : (ofFiles files).module? file = (ofFiles files').module? file := by
    rw [ofFiles_module?, ofFiles_module?, same]
  have specifiers : (ofFiles files).resolveModule? file = (ofFiles files').resolveModule? file :=
    funext (h.resolveModule? file)
  have exported : (ofFiles files).exportedInterface? = (ofFiles files').exportedInterface? := by
    funext source name
    rw [exportedInterface?, exportedInterface?, h.resolveExport?, h.hasInterface]
  have imported : (ofFiles files).importedTarget? file = (ofFiles files').importedTarget? file := by
    funext name
    simp only [importedTarget?, sameModule, specifiers, h.resolveExport?]
  funext name
  simp only [Program.resolveInterface?, memberInterface?, simpleInterface?, sameModule, specifiers,
    exported, imported, h.hasInterface, h.interfaces]

/-! ## Kinds -/

theorem heritage (h : Resemble files files') :
    (ofFiles files).heritage = (ofFiles files').heritage := by
  funext id
  rw [Program.heritage, Program.heritage, ← h.interface?]
  cases found : (ofFiles files).interface? id with
  | none => rfl
  | some i => rw [h.resolveInterface? (h.same_of_mem (mem_interfaces_of_found found))]

theorem kindType? (h : Resemble files files') :
    (ofFiles files).kindType? = (ofFiles files').kindType? := by
  funext depth
  induction depth with
  | zero => rfl
  | succ depth ih =>
    funext path b id
    have own : (ofFiles files).ownKind? id = (ofFiles files').ownKind? id := by
      rw [ownKind?, ownKind?, h.interface?]
    have bindings : (ofFiles files).bindingsFor b = (ofFiles files').bindingsFor b := by
      funext e
      rw [bindingsFor, bindingsFor, parametersOf, parametersOf, h.interface?]
    rw [kindType?_succ, kindType?_succ, own, h.heritage, ih, bindings]

theorem kind? (h : Resemble files files') : (ofFiles files).kind? = (ofFiles files').kind? := by
  funext kindEnum id
  rw [Program.kind?, Program.kind?, h.kindType?, h.interfaces]

theorem catalog (h : Resemble files files') (config : Config) :
    Catalog.ofProgram (ofFiles files) config = Catalog.ofProgram (ofFiles files') config := by
  have structures : (ofFiles files).structureDeclarations config.structureSuffix =
      (ofFiles files').structureDeclarations config.structureSuffix := by
    have same : Program.allInterfaceDeclarations (ofFiles files).files =
        Program.allInterfaceDeclarations (ofFiles files').files := h.allInterfaceDeclarations
    rw [structureDeclarations, structureDeclarations, same]
  have visit : Catalog.visit (ofFiles files) config .none =
      Catalog.visit (ofFiles files') config .none := by
    funext c id
    rw [Catalog.visit, Catalog.visit, h.kind?]
  rw [Catalog.ofProgram, Catalog.ofProgram, structures, visit]

end Resemble
end Program
end FactorySync
