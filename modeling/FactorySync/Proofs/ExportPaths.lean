import FactorySync.Program.Exports
import FactorySync.Proofs.Reachability

/-!
# The paths of exports

The files of a project make a graph: its places are exported names (`Target`), and a name leads on
to the names it is passed on from (`Program.PassesOn`). A path ends where a name is declared
(`Program.DeclaredBy`). The lookup of an exported name is a search in this graph. Names come from the
texts of imports and exports, so a search can come by finitely many places only, and it ends
(`Program.resolveExport?_ends`) in spite of circles. It finds a declaration exactly if a path leads
to one (`Program.resolveExport?_reaches`). A chain of re-exports may be of any length, as the stack
of the machine that follows it is not part of the model.
-/

namespace FactorySync

/-- The name that the first item for an exported name takes it from. -/
def Reexport.origin? (items : List (String × String)) (name : String) : Option String :=
  (items.find? (·.1 == name)).map (·.2)

namespace Program

variable {p : Program} {t u d : Target} {m : Module}

/-! ## The graph -/

/-- A name that a file exports is passed on from another file: in an export of names, which either
names the other file or takes the name from an import, or in an export of everything. Of several
items of one export with the same name the first counts. -/
inductive PassesOn (p : Program) (t : Target) : Target → Prop
  | named {m : Module} {items : List (String × String)} {specifier name : String} {source : FileId}
      (here : p.module? t.file = some m) (listed : .named items (some specifier) ∈ m.reexports)
      (origin : Reexport.origin? items t.name = some name)
      (leads : p.resolveModule? t.file specifier = some source) : PassesOn p t ⟨source, name⟩
  | imported {m : Module} {items : List (String × String)} {name specifier exported : String}
      {source : FileId} (here : p.module? t.file = some m)
      (listed : .named items none ∈ m.reexports)
      (origin : Reexport.origin? items t.name = some name) (undeclared : m.declares name = false)
      (bound : m.namedImport? name = some (specifier, exported))
      (leads : p.resolveModule? t.file specifier = some source) : PassesOn p t ⟨source, exported⟩
  | all {m : Module} {specifier : String} {source : FileId} (here : p.module? t.file = some m)
      (star : .all specifier ∈ m.reexports)
      (leads : p.resolveModule? t.file specifier = some source) : PassesOn p t ⟨source, t.name⟩

/-- A name that a file exports is declared there: by an exported statement, or under the name that
an export of names without a module takes it from. -/
inductive DeclaredBy (p : Program) (t : Target) : Target → Prop
  | own {m : Module} (here : p.module? t.file = some m) (own : m.exportsOwn t.name = true) :
      DeclaredBy p t t
  | listed {m : Module} {items : List (String × String)} {name : String}
      (here : p.module? t.file = some m) (listed : .named items none ∈ m.reexports)
      (origin : Reexport.origin? items t.name = some name) (declared : m.declares name = true) :
      DeclaredBy p t ⟨t.file, name⟩

/-- A path leads from an exported name to its declaration. -/
def Reaches (p : Program) (t d : Target) : Prop :=
  ∃ u, Relation.ReflTransGen p.PassesOn t u ∧ p.DeclaredBy u d

theorem Reaches.head (step : p.PassesOn t u) (h : p.Reaches u d) : p.Reaches t d := by
  obtain ⟨v, path, declared⟩ := h
  exact ⟨v, .head step path, declared⟩

/-! ## The steps of the search -/

theorem mem_through {file : FileId} {specifier name : String} {s : Step Target Target} :
    s ∈ p.through file specifier name ↔
      ∃ source, p.resolveModule? file specifier = some source ∧ s = .goTo ⟨source, name⟩ := by
  simp only [through, List.mem_map, Option.mem_toList, eq_comm]

theorem goTo_mem_through {file source : FileId} {specifier name : String}
    (leads : p.resolveModule? file specifier = some source) :
    .goTo ⟨source, name⟩ ∈ p.through file specifier name :=
  mem_through.2 ⟨source, leads, rfl⟩

theorem mem_localSteps {file : FileId} {name : String} {s : Step Target Target} :
    s ∈ p.localSteps file m name ↔ (m.declares name = true ∧ s = .answer ⟨file, name⟩) ∨
      (m.declares name = false ∧ ∃ specifier exported, m.namedImport? name =
        some (specifier, exported) ∧ s ∈ p.through file specifier exported) := by
  unfold localSteps
  cases m.declares name with
  | true => simp
  | false =>
    cases m.namedImport? name with
    | none => simp
    | some found => simp [Prod.ext_iff]

theorem mem_reexportSteps {file : FileId} {name : String} {items : List (String × String)}
    {specifier : Option String} {s : Step Target Target} :
    s ∈ p.reexportSteps file m name (.named items specifier) ↔
      ∃ first, Reexport.origin? items name = some first ∧
        ((∃ other, specifier = some other ∧ s ∈ p.through file other first) ∨
          specifier = none ∧ s ∈ p.localSteps file m first) := by
  unfold reexportSteps Reexport.origin?
  dsimp only
  cases items.find? (·.1 == name) with
  | none => simp
  | some item => cases specifier <;> simp

/-- Every step of the search is one of the graph. -/
theorem of_mem_exportSteps {s : Step Target Target} (h : s ∈ p.exportSteps t) :
    (∃ u, s = .goTo u ∧ p.PassesOn t u) ∨ ∃ d, s = .answer d ∧ p.DeclaredBy t d := by
  unfold exportSteps at h
  cases here : p.module? t.file with
  | none =>
    rw [here] at h
    exact absurd h List.not_mem_nil
  | some m =>
    simp only [here] at h
    split at h
    · next own =>
      obtain rfl := List.mem_singleton.1 h
      exact .inr ⟨t, rfl, .own here own⟩
    · rcases List.mem_append.1 h with h | h
      · obtain ⟨e, he, h⟩ := List.mem_flatMap.1 h
        cases e with
        | all => exact absurd h List.not_mem_nil
        | named items specifier =>
          obtain ⟨first, origin, ⟨other, rfl, step⟩ | ⟨rfl, step⟩⟩ := mem_reexportSteps.1 h
          · obtain ⟨source, leads, rfl⟩ := mem_through.1 step
            exact .inl ⟨_, rfl, .named here he origin leads⟩
          · rcases mem_localSteps.1 step with ⟨declared, rfl⟩ | ⟨undeclared, _, _, bound, step⟩
            · exact .inr ⟨_, rfl, .listed here he origin declared⟩
            · obtain ⟨source, leads, rfl⟩ := mem_through.1 step
              exact .inl ⟨_, rfl, .imported here he origin undeclared bound leads⟩
      · obtain ⟨e, he, h⟩ := List.mem_flatMap.1 h
        cases e with
        | named => exact absurd h List.not_mem_nil
        | all specifier =>
          obtain ⟨source, leads, rfl⟩ := mem_through.1 h
          exact .inl ⟨_, rfl, .all here he leads⟩

theorem exportSteps_of_own (here : p.module? t.file = some m) (own : m.exportsOwn t.name = true) :
    p.exportSteps t = [.answer t] := by
  simp [exportSteps, here, own]

/-- Where the file does not export a declaration of its own, every step of the graph is tried. -/
theorem mem_exportSteps (here : p.module? t.file = some m) (foreign : m.exportsOwn t.name = false)
    {s : Step Target Target} : s ∈ p.exportSteps t ↔
      (∃ e ∈ m.reexports, s ∈ p.reexportSteps t.file m t.name e) ∨
        ∃ e ∈ m.reexports, s ∈ p.starSteps t.file t.name e := by
  simp [exportSteps, here, foreign]

/-- What a local name leads to is tried for an export of names without a module. -/
theorem mem_exportSteps_of_listed {items : List (String × String)} {name : String}
    {s : Step Target Target} (here : p.module? t.file = some m)
    (foreign : m.exportsOwn t.name = false) (listed : .named items none ∈ m.reexports)
    (origin : Reexport.origin? items t.name = some name)
    (step : s ∈ p.localSteps t.file m name) : s ∈ p.exportSteps t :=
  (mem_exportSteps here foreign).2
    (.inl ⟨_, listed, mem_reexportSteps.2 ⟨name, origin, .inr ⟨rfl, step⟩⟩⟩)

theorem PassesOn.mem_steps (h : p.PassesOn t u) :
    .answer t ∈ p.exportSteps t ∨ .goTo u ∈ p.exportSteps t := by
  obtain ⟨m, here⟩ : ∃ m, p.module? t.file = some m := by cases h <;> exact ⟨_, ‹_›⟩
  cases own : m.exportsOwn t.name with
  | true => exact .inl (by simp [exportSteps_of_own here own])
  | false =>
    right
    cases h with
    | named here' listed origin leads =>
      obtain rfl := Option.some_inj.1 (here'.symm.trans here)
      exact (mem_exportSteps here own).2 (.inl ⟨_, listed, mem_reexportSteps.2
        ⟨_, origin, .inl ⟨_, rfl, goTo_mem_through leads⟩⟩⟩)
    | imported here' listed origin undeclared bound leads =>
      obtain rfl := Option.some_inj.1 (here'.symm.trans here)
      exact mem_exportSteps_of_listed here own listed origin
        (mem_localSteps.2 (.inr ⟨undeclared, _, _, bound, goTo_mem_through leads⟩))
    | all here' star leads =>
      obtain rfl := Option.some_inj.1 (here'.symm.trans here)
      exact (mem_exportSteps here own).2 (.inr ⟨_, star, goTo_mem_through leads⟩)

theorem DeclaredBy.mem_steps (h : p.DeclaredBy t d) : ∃ b, .answer b ∈ p.exportSteps t := by
  obtain ⟨m, here⟩ : ∃ m, p.module? t.file = some m := by cases h <;> exact ⟨_, ‹_›⟩
  cases own : m.exportsOwn t.name with
  | true => exact ⟨t, by simp [exportSteps_of_own here own]⟩
  | false =>
    cases h with
    | own here' own' =>
      obtain rfl := Option.some_inj.1 (here'.symm.trans here)
      exact absurd own' (by simp [own])
    | listed here' listed origin declared =>
      obtain rfl := Option.some_inj.1 (here'.symm.trans here)
      exact ⟨_, mem_exportSteps_of_listed here own listed origin
        (mem_localSteps.2 (.inl ⟨declared, rfl⟩))⟩

/-- Along the steps of the search, a name leads to a declaration if it does so in the graph. -/
theorem Reaches.exists_answer (h : p.Reaches t d) : ∃ u b,
    Relation.ReflTransGen (Search.LeadsTo p.exportSteps) t u ∧ .answer b ∈ p.exportSteps u := by
  obtain ⟨u, path, declared⟩ := h
  induction path using Relation.ReflTransGen.head_induction_on with
  | refl =>
    obtain ⟨b, hb⟩ := declared.mem_steps
    exact ⟨u, b, .refl, hb⟩
  | head step _ ih =>
    -- a file that exports a declaration of its own does not pass the name on in the search
    rcases step.mem_steps with answer | onward
    · exact ⟨_, _, .refl, answer⟩
    · obtain ⟨v, b, path, hb⟩ := ih
      exact ⟨v, b, .head onward path, hb⟩

theorem reaches_of_answer (path : Relation.ReflTransGen (Search.LeadsTo p.exportSteps) t u)
    (answer : .answer d ∈ p.exportSteps u) : p.Reaches t d := by
  have onward : ∀ a c, Search.LeadsTo p.exportSteps a c → p.PassesOn a c := by
    intro a c step
    rcases of_mem_exportSteps step with ⟨v, same, onward⟩ | ⟨v, same, -⟩
    · cases same
      exact onward
    · exact nomatch same
  rcases of_mem_exportSteps answer with ⟨v, same, -⟩ | ⟨v, same, declared⟩
  · exact nomatch same
  · cases same
    exact ⟨u, Relation.ReflTransGen.mono onward _ _ path, declared⟩

/-! ## The search ends -/

variable {files : List SourceFile}

theorem ofFiles_module? (files : List SourceFile) (file : FileId) :
    (ofFiles files).module? file = (files[file]?).map Module.ofFile := by
  simp [module?, ofFiles]

theorem resolveModule?_lt {file source : FileId} {specifier : String}
    (h : p.resolveModule? file specifier = some source) : source < p.files.length := by
  obtain ⟨path, -, found⟩ := List.exists_of_findSome?_eq_some h
  obtain ⟨lt, -⟩ := List.findIdx?_eq_some_iff_getElem.1 found
  exact lt

theorem origin_mentioned {items : List (String × String)} {specifier : Option String}
    {name first : String} (listed : .named items specifier ∈ m.reexports)
    (origin : Reexport.origin? items name = some first) : first ∈ m.mentions := by
  obtain ⟨item, found, rfl⟩ := Option.map_eq_some_iff.1 origin
  exact List.mem_append_right _ (List.mem_flatMap.2
    ⟨_, listed, List.mem_map_of_mem (List.mem_of_find?_eq_some found)⟩)

theorem import_mentioned {name specifier exported : String}
    (bound : m.namedImport? name = some (specifier, exported)) : exported ∈ m.mentions := by
  obtain ⟨i, hi, found⟩ := List.exists_of_findSome?_eq_some bound
  obtain ⟨item, hitem, same⟩ := Option.map_eq_some_iff.1 found
  obtain ⟨-, rfl⟩ := Prod.mk.inj same
  exact List.mem_append_left _ (List.mem_flatMap.2
    ⟨i, hi, List.mem_map_of_mem (List.mem_of_find?_eq_some hitem)⟩)

/-- All places that a search for a name can come by. -/
def places (p : Program) (name : String) : List Target :=
  (List.range p.files.length).flatMap fun file =>
    (name :: p.modules.flatMap (·.mentions)).map (⟨file, ·⟩)

theorem mem_places {name : String} : t ∈ p.places name ↔ t.file < p.files.length ∧
    (t.name = name ∨ t.name ∈ p.modules.flatMap (·.mentions)) := by
  obtain ⟨file, n⟩ := t
  simp only [places, List.mem_flatMap, List.mem_range, List.mem_map, List.mem_cons,
    Target.mk.injEq]
  constructor
  · rintro ⟨f, lt, x, hx, rfl, rfl⟩
    exact ⟨lt, hx⟩
  · rintro ⟨lt, hn⟩
    exact ⟨file, lt, n, hn, rfl, rfl⟩

theorem places_length (p : Program) (name : String) :
    (p.places name).length = p.searchAllowance := by
  simp [places, searchAllowance, List.length_flatMap]

/-- What a name is passed on from is a name that is looked for already, or one that an import or
export mentions. -/
theorem PassesOn.mem_places {name : String} (h : p.PassesOn t u) (ht : t ∈ p.places name) :
    u ∈ p.places name := by
  have named {m : Module} {n : String} (here : p.module? t.file = some m) (hn : n ∈ m.mentions) :
      n ∈ p.modules.flatMap (·.mentions) :=
    List.mem_flatMap.2 ⟨m, List.mem_of_getElem? here, hn⟩
  cases h with
  | named here listed origin leads =>
    exact Program.mem_places.2
      ⟨resolveModule?_lt leads, .inr (named here (origin_mentioned listed origin))⟩
  | imported here _ _ _ bound leads =>
    exact Program.mem_places.2
      ⟨resolveModule?_lt leads, .inr (named here (import_mentioned bound))⟩
  | all _ _ leads =>
    exact Program.mem_places.2 ⟨resolveModule?_lt leads, (Program.mem_places.1 ht).2⟩

/-- The lookup of an exported name comes to an end before its allowance does. -/
theorem resolveExport?_ends (files : List SourceFile) (file : FileId) (name : String) :
    Search.Ends (ofFiles files).exportSteps [] [.goTo ⟨file, name⟩]
      ((ofFiles files).resolveExport? file name) := by
  by_cases lt : file < (ofFiles files).files.length
  · have within : Search.Suffices (ofFiles files).exportSteps ((ofFiles files).places name)
        (ofFiles files).searchAllowance [] [.goTo ⟨file, name⟩] :=
      { closed := fun t ht u step => by
          rcases of_mem_exportSteps step with ⟨v, same, onward⟩ | ⟨v, same, -⟩
          · cases same
            exact onward.mem_places ht
          · exact nomatch same
        nodup := List.nodup_nil
        entered_mem := by simp
        todo_mem := fun t ht => by
          cases List.mem_singleton.1 ht
          exact mem_places.2 ⟨lt, .inl rfl⟩
        enough := Nat.le_of_eq (places_length _ name) }
    exact Search.run_ends within
  · -- a file that is not there exports nothing
    have missing : (ofFiles files).exportSteps ⟨file, name⟩ = [] := by
      have : files[file]? = none := List.getElem?_eq_none (Nat.le_of_not_lt lt)
      simp [exportSteps, ofFiles_module?, this]
    have none : (ofFiles files).resolveExport? file name = none := by
      rw [resolveExport?, Search.firstAnswer]
      cases (ofFiles files).searchAllowance <;> simp [Search.run, missing]
    rw [none]
    exact .enter List.not_mem_nil (by rw [missing]; exact .nothing)

/-- The exports of names of a file are its export declarations with names in braces: what they list,
and the module they name, if any. -/
theorem named_mem_reexports {f : SourceFile} {items : List (String × String)}
    {specifier : Option String} :
    .named items specifier ∈ (Module.ofFile f).reexports ↔
      ∃ n ∈ f.statements, n.kind = .exportDeclaration ∧
        ∃ clause, n.child? .exportClause = some clause ∧ clause.kind = .namedExports ∧
          (clause.childrenIn .elements).map Reexport.itemOf = items ∧
          Reexport.specifierOf? n = specifier := by
  simp only [Module.ofFile, List.mem_filterMap]
  refine exists_congr fun n => and_congr_right fun _ => ?_
  unfold Reexport.ofNode?
  cases n.child? .exportClause <;> cases Reexport.specifierOf? n <;> simp

/-- The exports of everything of a file are its export declarations that list nothing and name a
module. -/
theorem all_mem_reexports {f : SourceFile} {specifier : String} :
    .all specifier ∈ (Module.ofFile f).reexports ↔
      ∃ n ∈ f.statements, n.kind = .exportDeclaration ∧ n.child? .exportClause = none ∧
        Reexport.specifierOf? n = some specifier := by
  simp only [Module.ofFile, List.mem_filterMap]
  refine exists_congr fun n => and_congr_right fun _ => ?_
  unfold Reexport.ofNode?
  cases n.child? .exportClause <;> cases Reexport.specifierOf? n <;> simp

theorem exists_resolveExport?_iff (files : List SourceFile) (file : FileId) (name : String) :
    ((ofFiles files).resolveExport? file name).isSome = true ↔
      ∃ d, (ofFiles files).Reaches ⟨file, name⟩ d := by
  rw [(resolveExport?_ends files file name).isSome_iff]
  constructor
  · rintro ⟨u, d, path, answer⟩
    exact ⟨d, reaches_of_answer path answer⟩
  · rintro ⟨d, h⟩
    exact h.exists_answer

/-- In every project the lookup of an exported name comes to an end, whatever circles its exports
make. It finds something exactly if a path leads from the name to a declaration, and what it finds is
such a declaration. -/
theorem resolveExport?_reaches (files : List SourceFile) (file : FileId) (name : String) :
    Search.Ends (ofFiles files).exportSteps [] [.goTo ⟨file, name⟩]
        ((ofFiles files).resolveExport? file name) ∧
      (((ofFiles files).resolveExport? file name).isSome = true ↔
        ∃ d, (ofFiles files).Reaches ⟨file, name⟩ d) ∧
      ∀ d, (ofFiles files).resolveExport? file name = some d →
        (ofFiles files).Reaches ⟨file, name⟩ d := by
  have ends := resolveExport?_ends files file name
  refine ⟨ends, exists_resolveExport?_iff files file name, fun d found => ?_⟩
  rcases ends.answer_reached found with here | ⟨t, u, ht, path, answer⟩
  · exact nomatch List.mem_singleton.1 here
  · cases List.mem_singleton.1 ht
    exact reaches_of_answer path answer

end Program
end FactorySync
