import FactorySync.Proofs.NamedExports

/-!
# Imports that lead back home

A file is never chosen to import from itself, but the file that is chosen may pass a name on that
the first one declares. Where an added import leads back like this, the way of the name comes into
the file from another one that passes it on (`Program.ComesBack`), or the specifier of the chosen
file means the file itself (`Program.reconcileImports_added_home`). A name that is free as a type
and declared as a value, or the other way round, comes back in this manner (`Program.barrel`).
-/

namespace FactorySync

/-- A path that begins outside a set and ends in it enters it by one of its steps. -/
theorem exists_step_into {α : Type} {r : α → α → Prop} (inside : α → Prop) {a b : α}
    (path : Relation.ReflTransGen r a b) (out : ¬ inside a) (inner : inside b) :
    ∃ u v, Relation.ReflTransGen r a u ∧ ¬ inside u ∧ r u v ∧ inside v ∧
      Relation.ReflTransGen r v b := by
  induction path using Relation.ReflTransGen.head_induction_on with
  | refl => exact absurd inner out
  | @head a c step rest ih =>
    by_cases entered : inside c
    · exact ⟨a, c, .refl, out, step, entered, rest⟩
    · obtain ⟨u, v, before, outer, step', inner', after⟩ := ih entered
      exact ⟨u, v, before.head step, outer, step', inner', after⟩

namespace Program

variable {p : Program} {files : List SourceFile} {file target : FileId} {x : String}
variable {t u d : Target}

/-- On the way of a name to a declaration another file passes it on from the target. -/
def ComesBack (p : Program) (target : FileId) (t d : Target) : Prop :=
  ∃ u v, Relation.ReflTransGen p.PassesOn t u ∧ u.file ≠ target ∧ p.PassesOn u v ∧
    v.file = target ∧ p.Reaches v d

theorem DeclaredBy.file_eq (h : p.DeclaredBy t d) : d.file = t.file := by
  cases h <;> rfl

/-- A declaration of the target can be reached from elsewhere only through a file that passes it
on. -/
theorem Reaches.comesBack (h : p.Reaches t d) (away : t.file ≠ target) (home : d.file = target) :
    p.ComesBack target t d := by
  obtain ⟨w, path, declared⟩ := h
  obtain ⟨u, v, before, outer, step, inner, after⟩ :=
    exists_step_into (fun t : Target => t.file = target) path away
      (declared.file_eq.symm.trans home)
  exact ⟨u, v, before, outer, step, inner, w, after, declared⟩

theorem reaches_of_resolveExport? (h : (ofFiles files).resolveExport? file x = some d) :
    (ofFiles files).Reaches ⟨file, x⟩ d := by
  rcases (resolveExport?_ends files file x).answer_reached h with here | ⟨t, u, ht, path, answer⟩
  · exact nomatch List.mem_singleton.1 here
  · cases List.mem_singleton.1 ht
    exact reaches_of_answer path answer

/-- What an added import leads to is in the target only if the specifier of the chosen file means
the target itself, or the way of the name comes into the target from another file. It is in the
target for certain if every declaration is that the name can be followed to. -/
theorem reconcileImports_added_home {f : SourceFile} {change : ImportChange}
    (h : (ofFiles files).reconcileImports target f = .ok change) : ∀ x ∈ change.added,
      ((ImportDraft.ofProgram (ofFiles files) target f).bindings.map (·.localName)).count x = 1 ∧
      ∀ b ∈ (ImportDraft.ofProgram (ofFiles files) target f).bindings, b.localName = x →
        b.source = .exported x ∧ ∃ exporter,
          ImportDraft.exporter? (ofFiles files) target x = some exporter ∧ exporter ≠ target ∧
          ∀ file d, (ofFiles files).resolveModule? target b.specifier = some file →
            (ofFiles files).resolveExport? file x = some d →
              (ofFiles files).Reaches ⟨file, x⟩ d ∧
              (d.file = target →
                (file = target ∧ b.specifier = Path.specifier ((ofFiles files).path target)
                  ((ofFiles files).path exporter)) ∨
                (ofFiles files).ComesBack target ⟨file, x⟩ d) ∧
              ((∀ e, (ofFiles files).Reaches ⟨file, x⟩ e → e.file = target) →
                d.file = target) := by
  obtain ⟨-, added, -⟩ := reconcileImports_eq_ok.1 h
  intro x hx
  rw [added] at hx
  refine ⟨ImportDraft.count_added hx, fun b hb name => ?_⟩
  subst name
  obtain ⟨source, exporter, chosen, leads⟩ := ImportDraft.binding_of_added hb hx
  obtain ⟨-, other, -⟩ := ImportDraft.exporter?_exports chosen
  refine ⟨source, exporter, chosen, other, fun file d means found => ?_⟩
  have reached := reaches_of_resolveExport? found
  refine ⟨reached, fun home => ?_, fun all => all d reached⟩
  by_cases here : file = target
  · -- an import of the target that was there before does not lead to the chosen file
    refine .inl ⟨here, leads.resolve_left fun toExporter => other ?_⟩
    exact (Option.some_inj.1 (means.symm.trans toExporter)).symm.trans here
  · exact .inr (reached.comesBack here home)

/-! ## A module that passes everything on -/

/-- A module that passes everything on from a file, which reads a type and declares a value of the
same name. -/
def barrel : List SourceFile :=
  [.parse "b.ts" "export * from './t'".toList,
    .parse "t.ts" "export const X = 1; type T = X".toList]

/-- What is read from the two files. -/
theorem barrel_read :
    ((SourceFile.parse "t.ts" "export const X = 1; type T = X".toList).hasErrors = false ∧
      (SourceFile.parse "t.ts" "export const X = 1; type T = X".toList).imports.isEmpty = true ∧
      "X" ∈ (SourceFile.parse "t.ts" "export const X = 1; type T = X".toList).references.free) ∧
    (∃ m ∈ (ofFiles barrel).module? 0, m.reexports = [.all "./t"] ∧ m.exportsOwn "X" = false) ∧
    ∃ m ∈ (ofFiles barrel).module? 1, m.reexports = [] ∧ m.exportsOwn "X" = true := by
  decide +kernel

theorem barrel_paths : (ofFiles barrel).files.map (·.path) = ["b.ts", "t.ts"] := by
  simp [barrel, ofFiles]

theorem barrel_path : (ofFiles barrel).path 0 = "b.ts" ∧ (ofFiles barrel).path 1 = "t.ts" := by
  simp [path, file?, barrel, ofFiles]

/-- The specifiers that lead from either file to the other one. -/
theorem barrel_specifiers :
    Path.candidates "b.ts" "./t" =
      ["t.ts", "t.tsx", "t.d.ts", "t/index.ts", "t/index.tsx", "t/index.d.ts"] ∧
    Path.candidates "t.ts" "./b" =
      ["b.ts", "b.tsx", "b.d.ts", "b/index.ts", "b/index.tsx", "b/index.d.ts"] ∧
    Path.specifier "t.ts" "b.ts" = "./b" := by
  decide +kernel

theorem barrel_resolveModule? : (ofFiles barrel).resolveModule? 0 "./t" = some 1 ∧
    (ofFiles barrel).resolveModule? 1 "./b" = some 0 := by
  obtain ⟨toTarget, toBarrel, -⟩ := barrel_specifiers
  obtain ⟨path0, path1⟩ := barrel_path
  constructor
  · rw [resolveModule?, path0, toTarget, List.findSome?_cons, position?_eq, barrel_paths]
    rfl
  · rw [resolveModule?, path1, toBarrel, List.findSome?_cons, position?_eq, barrel_paths]
    rfl

/-- Everything that the module exports under the name is declared in the target. -/
theorem barrel_reaches : (ofFiles barrel).Reaches ⟨0, "X"⟩ ⟨1, "X"⟩ ∧
    ∀ d, (ofFiles barrel).Reaches ⟨0, "X"⟩ d → d.file = 1 := by
  obtain ⟨⟨m, here, star, foreign⟩, ⟨n, there, closed, own⟩⟩ := barrel_read.2
  have means := barrel_resolveModule?.1
  have onward : (ofFiles barrel).PassesOn ⟨0, "X"⟩ ⟨1, "X"⟩ :=
    .all here (by simp [star]) means
  refine ⟨⟨_, .single onward, .own there own⟩, ?_⟩
  rintro d ⟨u, path, declared⟩
  rw [declared.file_eq]
  rcases path.cases_head with rfl | ⟨v, step, rest⟩
  · -- the module declares nothing under the name
    cases declared with
    | own here' own' =>
      obtain rfl := Option.some_inj.1 (here'.symm.trans here)
      exact absurd own' (by simp [foreign])
    | listed here' listed =>
      obtain rfl := Option.some_inj.1 (here'.symm.trans here)
      simp [star] at listed
  · have v_file : v.file = 1 := by
      cases step with
      | named here' listed =>
        obtain rfl := Option.some_inj.1 (here'.symm.trans here)
        simp [star] at listed
      | imported here' listed =>
        obtain rfl := Option.some_inj.1 (here'.symm.trans here)
        simp [star] at listed
      | all here' star' leads =>
        obtain rfl := Option.some_inj.1 (here'.symm.trans here)
        rw [star, List.mem_singleton, Reexport.all.injEq] at star'
        rw [star', means] at leads
        exact (Option.some_inj.1 leads).symm
    rcases rest.cases_head with rfl | ⟨w, step, -⟩
    · exact v_file
    · -- the target passes nothing on
      have nothing {m : Module} (hm : (ofFiles barrel).module? v.file = some m) (e : Reexport) :
          e ∉ m.reexports := by
        rw [v_file] at hm
        obtain rfl := Option.some_inj.1 (hm.symm.trans there)
        simp [closed]
      cases step with
      | named here' listed => exact absurd listed (nothing here' _)
      | imported here' listed => exact absurd listed (nothing here' _)
      | all here' star' => exact absurd star' (nothing here' _)

theorem barrel_exporter : 0 ∈ (ofFiles barrel).exporters "X" 1 ∧
    ∀ exporter, ImportDraft.exporter? (ofFiles barrel) 1 "X" = some exporter → exporter = 0 := by
  constructor
  · have found := (exists_resolveExport?_iff barrel 0 "X").2 ⟨_, barrel_reaches.1⟩
    refine List.mem_filter.2 ⟨List.mem_range.2 Nat.zero_lt_two, ?_⟩
    rw [found]
    rfl
  · intro exporter chosen
    obtain ⟨lt, other, -⟩ := ImportDraft.exporter?_exports chosen
    have first : exporter < 1 := Nat.lt_of_le_of_ne (Nat.le_of_lt_succ lt) other
    exact Nat.lt_one_iff.1 first

/-- The way of the name into the target is found. -/
theorem barrel_comesBack : ∃ change, (ofFiles barrel).reconcileImports 1
      (.parse "t.ts" "export const X = 1; type T = X".toList) = .ok change ∧ "X" ∈ change.added ∧
    ∀ b ∈ (ImportDraft.ofProgram (ofFiles barrel) 1
        (.parse "t.ts" "export const X = 1; type T = X".toList)).bindings, b.localName = "X" →
      ∀ d, (ofFiles barrel).resolveModule? 1 b.specifier = some 0 →
        (ofFiles barrel).resolveExport? 0 "X" = some d →
          (ofFiles barrel).ComesBack 1 ⟨0, "X"⟩ d := by
  obtain ⟨clean, imports, free⟩ := barrel_read.1
  obtain ⟨change, h, added⟩ := mem_added_of_exporter clean imports free barrel_exporter.1
  refine ⟨change, h, added, fun b hb name d means found => ?_⟩
  obtain ⟨-, exporter, -, -, leads⟩ := (reconcileImports_added_home h "X" added).2 b hb name
  obtain ⟨-, comesBack, all⟩ := leads 0 d means found
  exact (comesBack (all barrel_reaches.2)).resolve_left fun hidden => Nat.zero_ne_one hidden.1

/-- The name is imported from the module, which leads back to the value that the target declares. -/
theorem barrel_added : ∃ change, (ofFiles barrel).reconcileImports 1
      (.parse "t.ts" "export const X = 1; type T = X".toList) = .ok change ∧ "X" ∈ change.added ∧
    ∃ b ∈ (ImportDraft.ofProgram (ofFiles barrel) 1
        (.parse "t.ts" "export const X = 1; type T = X".toList)).bindings, b.localName = "X" ∧
      ∃ file d, (ofFiles barrel).resolveModule? 1 b.specifier = some file ∧
        (ofFiles barrel).resolveExport? file "X" = some d ∧ d.file = 1 := by
  obtain ⟨clean, imports, free⟩ := barrel_read.1
  obtain ⟨change, h, added⟩ := mem_added_of_exporter clean imports free barrel_exporter.1
  refine ⟨change, h, added, ?_⟩
  obtain ⟨-, hadded, -⟩ := reconcileImports_eq_ok.1 h
  rw [hadded] at added
  obtain ⟨b, hb, name⟩ := List.mem_map.1
    (List.count_pos_iff.1 (Nat.lt_of_lt_of_eq Nat.zero_lt_one (ImportDraft.count_added added).symm))
  obtain ⟨d, found⟩ := Option.isSome_iff_exists.1
    ((exists_resolveExport?_iff barrel 0 "X").2 ⟨_, barrel_reaches.1⟩)
  refine ⟨b, hb, name, 0, d, ?_, found, barrel_reaches.2 d (reaches_of_resolveExport? found)⟩
  obtain ⟨-, exporter, chosen, leads⟩ := ImportDraft.binding_of_added hb (name ▸ added)
  rw [name] at chosen
  obtain rfl := barrel_exporter.2 exporter chosen
  rcases leads with means | specifier
  · exact means
  · obtain ⟨path0, path1⟩ := barrel_path
    rw [specifier, path0, path1, barrel_specifiers.2.2]
    exact barrel_resolveModule?.2

end Program
end FactorySync
