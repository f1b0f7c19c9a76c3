import FactorySync.Factory.Catalog
import FactorySync.Proofs.FirstUses
import Mathlib.Data.List.Forall2
import Mathlib.Data.List.Induction

/-!
# What the catalog holds

The catalog is filled while the interface declarations of all files are gone through. An interface
with several declarations is met several times, but has one record, in the place of its first
declaration (`Catalog.ofProgram_eq`). A visitor that is asked after each new record may add others;
as long as it only adds, each declaration contributes one block of records, its own one in front,
and the blocks stand one behind the other (`Catalog.collect_blocks`). `Catalog.records_complete`
states both.
-/

namespace FactorySync

/-- The identities of all interface declarations among the statements of the files, in the order of
files and places. -/
def Program.interfaceIds (p : Program) : List InterfaceId :=
  p.files.zipIdx.flatMap fun f =>
    (f.1.statements.filter (·.kind == .interfaceDeclaration)).map fun n =>
      ⟨f.2, (n.nameIn? .name).getD ""⟩

theorem Program.mem_interfaceIds {p : Program} {id : InterfaceId} : id ∈ p.interfaceIds ↔
    ∃ f n, p.file? id.file = some f ∧ n ∈ f.statements ∧ n.kind = .interfaceDeclaration ∧
      id.name = (n.nameIn? .name).getD "" := by
  simp only [interfaceIds, List.mem_flatMap, List.mem_map, List.mem_filter, beq_iff_eq, file?]
  constructor
  · rintro ⟨⟨f, i⟩, hf, n, ⟨hn, kind⟩, rfl⟩
    exact ⟨f, n, List.mem_zipIdx_iff_getElem?.1 hf, hn, kind, rfl⟩
  · rintro ⟨f, n, hf, hn, kind, name⟩
    exact ⟨(f, id.file), List.mem_zipIdx_iff_getElem?.2 hf, n, ⟨hn, kind⟩, by rw [← name]⟩

theorem Program.structureDeclarations_eq (p : Program) (suffix : String) :
    p.structureDeclarations suffix = p.interfaceIds.filter fun id => endsWith id.name suffix := by
  rw [structureDeclarations, allInterfaceDeclarations, List.map_flatMap]
  simp only [interfaceDeclarations, List.map_map, Function.comp_def, interfaceIds]

namespace Catalog

variable {p : Program} {config : Config} {c : Catalog} {id : InterfaceId}

/-- The interfaces that have a record. -/
def ids (c : Catalog) : List InterfaceId := c.map (·.1)

@[simp]
theorem ids_append (c more : Catalog) : ids (c ++ more) = c.ids ++ ids more := List.map_append

theorem has_iff : c.has id = true ↔ id ∈ c.ids := by
  simp [has, ids]

theorem add_of_new (new : id ∉ c.ids) (kind : String) :
    c.add id kind = c ++ [(id, ⟨id.name, kind⟩)] := by
  rw [add, if_neg (mt has_iff.1 new)]

theorem add_adds (nodup : c.ids.Nodup) (id : InterfaceId) (kind : String) :
    ∃ more, c.add id kind = c ++ more ∧ (ids (c ++ more)).Nodup := by
  by_cases present : id ∈ c.ids
  · refine ⟨[], ?_, by rwa [List.append_nil]⟩
    rw [add, if_pos (has_iff.2 present), List.append_nil]
  · refine ⟨[(id, ⟨id.name, kind⟩)], add_of_new present kind, ?_⟩
    rw [ids_append]
    refine List.nodup_append.2 ⟨nodup, by simp [ids], fun a ha b hb => ?_⟩
    rw [List.mem_singleton.1 hb]
    rintro rfl
    exact present ha

/-! ## Without ancestors -/

/-- Whether an interface is a structure that is not excluded. -/
def wants (config : Config) (id : InterfaceId) : Bool :=
  endsWith id.name config.structureSuffix && config.includesStructure id.name

/-- The entry of an interface that gets a record. -/
def recordOf (p : Program) (config : Config) (id : InterfaceId) :
    Option (InterfaceId × StructureRecord) :=
  if wants config id then (p.kind? config.kindEnum id).map fun kind => (id, ⟨id.name, kind⟩)
  else none

theorem recordOf_fst {e : InterfaceId × StructureRecord} (h : recordOf p config id = some e) :
    e.1 = id := by
  unfold recordOf at h
  split at h
  · obtain ⟨kind, -, rfl⟩ := Option.map_eq_some_iff.1 h
    rfl
  · cases h

theorem mem_ids_filterMap {l : List InterfaceId} :
    id ∈ ids (l.filterMap (recordOf p config)) ↔ id ∈ l ∧ (recordOf p config id).isSome := by
  simp only [ids, List.mem_map, List.mem_filterMap]
  constructor
  · rintro ⟨e, ⟨other, mem, found⟩, rfl⟩
    obtain rfl := recordOf_fst found
    exact ⟨mem, by rw [found]; rfl⟩
  · rintro ⟨mem, some⟩
    obtain ⟨e, found⟩ := Option.isSome_iff_exists.1 some
    exact ⟨e, ⟨id, mem, found⟩, recordOf_fst found⟩

/-- A structure that is met adds its entry, unless it was met before. -/
theorem visit_entries (p : Program) (suffix : endsWith id.name config.structureSuffix = true)
    (l : List InterfaceId) : visit p config .none (l.filterMap (recordOf p config)) id =
      l.filterMap (recordOf p config) ++ if id ∈ l then [] else (recordOf p config id).toList := by
  by_cases included : config.includesStructure id.name = true
  · have entry : recordOf p config id =
        (p.kind? config.kindEnum id).map fun kind => (id, ⟨id.name, kind⟩) :=
      if_pos (Bool.and_eq_true_iff.2 ⟨suffix, included⟩)
    rw [visit, included, Bool.not_true, Bool.false_or]
    by_cases present : id ∈ ids (l.filterMap (recordOf p config))
    · rw [if_pos (has_iff.2 present), if_pos (mem_ids_filterMap.1 present).1, List.append_nil]
    · rw [if_neg (mt has_iff.1 present)]
      have absent := mt mem_ids_filterMap.2 present
      split
      · next kind found =>
        rw [found] at entry
        have new : id ∉ l := fun mem => absent ⟨mem, by rw [entry]; rfl⟩
        rw [if_neg new, entry, Ancestors.none, add_of_new present]
        rfl
      · next none =>
        rw [none] at entry
        rw [entry]
        simp
  · have nothing : recordOf p config id = none :=
      if_neg fun wanted => included (Bool.and_eq_true_iff.1 wanted).2
    simp [visit, included, nothing]

/-- Going through the declarations leaves the entry of each interface in the place of its first
declaration. -/
theorem foldl_visit (p : Program) (config : Config) (l : List InterfaceId) :
    (l.filter fun id => endsWith id.name config.structureSuffix).foldl (visit p config .none) [] =
      l.eraseDups.filterMap (recordOf p config) := by
  induction l using List.reverseRecOn with
  | nil => rfl
  | append_singleton l id ih =>
    have last : (if id ∈ l then [] else [id]).filterMap (recordOf p config) =
        if id ∈ l then [] else (recordOf p config id).toList := by
      split
      · rfl
      · cases h : recordOf p config id <;> simp [h]
    rw [List.filter_append, List.foldl_append, ih, eraseDups_concat, List.filterMap_append, last]
    by_cases suffix : endsWith id.name config.structureSuffix = true
    · have met := visit_entries p suffix l.eraseDups
      simp only [List.mem_eraseDups] at met
      simpa [suffix] using met
    · have nothing : recordOf p config id = none :=
        if_neg fun wanted => suffix (Bool.and_eq_true_iff.1 wanted).1
      simp [suffix, nothing]

/-- The catalog of a program is made of the entries of its interfaces in the order of their first
declarations. -/
theorem ofProgram_eq (p : Program) (config : Config) :
    ofProgram p config = p.interfaceIds.eraseDups.filterMap (recordOf p config) := by
  rw [ofProgram, p.structureDeclarations_eq, foldl_visit]

/-! ## With ancestors -/

/-- A visitor that is asked about a structure after its record was added. What it does to the
catalog may depend on what it remembers. -/
abbrev Visitor (σ : Type) := σ → InterfaceId → Catalog → σ × Catalog

/-- A visitor that leaves all records as they are and where they are, and adds others behind. -/
def Visitor.OnlyAdds {σ : Type} (v : Visitor σ) : Prop :=
  ∀ memory id (c : Catalog), c.ids.Nodup →
    ∃ more, (v memory id c).2 = c ++ more ∧ (ids (c ++ more)).Nodup

/-- The visitor that adds the structures that a structure extends. -/
def Visitor.bases (p : Program) (config : Config) : Visitor Unit :=
  fun _ id c => ((), Ancestors.bases p config id c)

theorem Visitor.bases_onlyAdds (p : Program) (config : Config) :
    (Visitor.bases p config).OnlyAdds := by
  intro memory id c nodup
  unfold Visitor.bases Ancestors.bases
  dsimp only
  induction p.baseStructures config.structureSuffix id generalizing c with
  | nil => exact ⟨[], (List.append_nil c).symm, by rwa [List.append_nil]⟩
  | cons base bases ih =>
    rw [List.foldl_cons]
    split
    · next kind _ =>
      obtain ⟨first, heq, nodup'⟩ := add_adds nodup base kind
      rw [heq]
      obtain ⟨more, rest, all⟩ := ih _ nodup'
      rw [List.append_assoc] at rest all
      exact ⟨first ++ more, rest, all⟩
    · exact ih c nodup

section Visiting

variable {σ : Type} {v : Visitor σ} {state : σ × Catalog}

/-- Adds one structure and asks the visitor, unless it is excluded, has no kind or is there
already. -/
def meet (p : Program) (config : Config) (v : Visitor σ) (state : σ × Catalog) (id : InterfaceId) :
    σ × Catalog :=
  if !config.includesStructure id.name || state.2.has id then state
  else
    match p.kind? config.kindEnum id with
    | some kind => v state.1 id (state.2.add id kind)
    | none => state

/-- The catalog of a program with a visitor. -/
def collect (p : Program) (config : Config) (v : Visitor σ) (memory : σ) : Catalog :=
  ((p.structureDeclarations config.structureSuffix).foldl (meet p config v) (memory, [])).2

/-- A visitor that remembers nothing does what it does in the catalog of the program. -/
theorem collect_forgetful (p : Program) (config : Config) (ancestors : Ancestors) :
    collect p config (fun _ id c => ((), ancestors id c)) () = ofProgram p config ancestors := by
  have step (c : Catalog) (id : InterfaceId) :
      meet p config (fun _ id c => ((), ancestors id c)) ((), c) id =
        ((), visit p config ancestors c id) := by
    simp only [meet, visit]
    split
    · rfl
    · cases p.kind? config.kindEnum id <;> rfl
  have run (l : List InterfaceId) (c : Catalog) :
      (l.foldl (meet p config fun _ id c => ((), ancestors id c)) ((), c)).2 =
        l.foldl (visit p config ancestors) c := by
    induction l generalizing c with
    | nil => rfl
    | cons id l ih => rw [List.foldl_cons, step, ih, List.foldl_cons]
  exact run _ []

/-- What a declaration adds to the catalog: nothing, or the record of its interface and then what
the visitor adds. -/
def IsBlock (p : Program) (config : Config) (id : InterfaceId) (block : Catalog) : Prop :=
  block = [] ∨ ∃ kind more, p.kind? config.kindEnum id = some kind ∧
    config.includesStructure id.name = true ∧ block = (id, ⟨id.name, kind⟩) :: more

theorem meet_block (p : Program) (config : Config) (adds : v.OnlyAdds)
    (nodup : state.2.ids.Nodup) (id : InterfaceId) :
    ∃ block, IsBlock p config id block ∧ (meet p config v state id).2 = state.2 ++ block ∧
      (ids (state.2 ++ block)).Nodup ∧
      (config.includesStructure id.name = true → (p.kind? config.kindEnum id).isSome →
        id ∈ ids (state.2 ++ block)) := by
  have unchanged : (ids (state.2 ++ [])).Nodup := by rwa [List.append_nil]
  unfold meet
  split
  · next skipped =>
    refine ⟨[], .inl rfl, (List.append_nil _).symm, unchanged, fun included _ => ?_⟩
    rw [List.append_nil]
    exact has_iff.1 (by simpa [included] using skipped)
  next entered =>
  obtain ⟨included, new⟩ : config.includesStructure id.name = true ∧ id ∉ state.2.ids := by
    simpa [has_iff] using entered
  split
  · next kind found =>
    obtain ⟨_, added, nodup'⟩ := add_adds nodup id kind
    rw [← added, add_of_new new] at nodup'
    rw [add_of_new new]
    obtain ⟨more, heq, all⟩ := adds state.1 id _ nodup'
    refine ⟨(id, ⟨id.name, kind⟩) :: more, .inr ⟨kind, more, found, included, rfl⟩, ?_, ?_, ?_⟩
    · rw [heq, List.append_assoc]
      rfl
    · rwa [List.append_assoc] at all
    · exact fun _ _ => by simp [ids]
  · next none =>
    refine ⟨[], .inl rfl, (List.append_nil _).symm, unchanged, fun _ some => ?_⟩
    rw [none] at some
    cases some

/-- Each declaration adds its block behind all that was added before. -/
theorem foldl_meet_blocks (p : Program) (config : Config) (adds : v.OnlyAdds)
    (nodup : state.2.ids.Nodup) (l : List InterfaceId) :
    ∃ blocks, List.Forall₂ (IsBlock p config) l blocks ∧
      (l.foldl (meet p config v) state).2 = state.2 ++ blocks.flatten ∧
      (ids (state.2 ++ blocks.flatten)).Nodup ∧
      ∀ id ∈ l, config.includesStructure id.name = true → (p.kind? config.kindEnum id).isSome →
        id ∈ ids (state.2 ++ blocks.flatten) := by
  induction l generalizing state with
  | nil => exact ⟨[], .nil, (List.append_nil _).symm, by simpa using nodup, nofun⟩
  | cons id l ih =>
    obtain ⟨block, isBlock, added, nodup', present⟩ := meet_block p config adds nodup id
    rw [← added] at nodup'
    obtain ⟨blocks, rest, heq, all, others⟩ := ih nodup'
    have whole : (meet p config v state id).2 ++ blocks.flatten =
        state.2 ++ (block :: blocks).flatten := by
      rw [added, List.flatten_cons, List.append_assoc]
    rw [whole] at heq all others
    refine ⟨block :: blocks, .cons isBlock rest, heq, all, List.forall_mem_cons.2 ⟨?_, others⟩⟩
    intro included some
    rw [List.flatten_cons, ← List.append_assoc, ids_append]
    exact List.mem_append_left _ (present included some)

end Visiting

/-! ## The records -/

/-- Whether a structure that is not excluded has a kind. -/
def gets (p : Program) (config : Config) (id : InterfaceId) : Bool :=
  wants config id && (p.kind? config.kindEnum id).isSome

theorem records_filterMap (l : List InterfaceId) :
    List.Forall₂ (fun id r => r.name = id.name ∧ p.kind? config.kindEnum id = some r.kind)
      (l.filter (gets p config)) (records (l.filterMap (recordOf p config)) config) := by
  induction l with
  | nil => exact .nil
  | cons id l ih =>
    by_cases wanted : wants config id = true
    · have included := (Bool.and_eq_true_iff.1 wanted).2
      have entry : recordOf p config id =
          (p.kind? config.kindEnum id).map fun kind => (id, ⟨id.name, kind⟩) := if_pos wanted
      cases found : p.kind? config.kindEnum id with
      | none =>
        rw [found] at entry
        rw [List.filter_cons_of_neg (by simp [gets, found]), List.filterMap_cons_none entry]
        exact ih
      | some kind =>
        rw [found] at entry
        rw [List.filter_cons_of_pos (by simp [gets, wanted, found]),
          List.filterMap_cons_some entry, records, List.map_cons,
          List.filter_cons_of_pos (by exact included)]
        exact .cons ⟨rfl, found⟩ ih
    · have entry : recordOf p config id = none := if_neg wanted
      rw [List.filter_cons_of_neg (by simp [gets, wanted]), List.filterMap_cons_none entry]
      exact ih

/-- The records are those of the structures that are not excluded and have a kind, one for each
interface, in the order of the first declarations. With a visitor that only adds records, each
declaration adds one block, these stand in the order of the declarations and no interface has two
records; what is excluded gets no factory, whoever added it, and what is not is there. The ancestors
of a program are such a visitor, one that remembers nothing. -/
theorem records_complete (p : Program) (config : Config) :
    let wanted := p.interfaceIds.eraseDups.filter (gets p config)
    wanted.Nodup ∧ wanted.Pairwise (fun a b => p.interfaceIds.idxOf a < p.interfaceIds.idxOf b) ∧
    (∀ id, id ∈ wanted ↔ (∃ f n, p.file? id.file = some f ∧ n ∈ f.statements ∧
        n.kind = .interfaceDeclaration ∧ id.name = (n.nameIn? .name).getD "") ∧
      endsWith id.name config.structureSuffix = true ∧
      config.includesStructure id.name = true ∧ (p.kind? config.kindEnum id).isSome) ∧
    List.Forall₂ (fun id r => r.name = id.name ∧ p.kind? config.kindEnum id = some r.kind) wanted
      ((ofProgram p config).records config) ∧
    (∀ (σ : Type) (v : Visitor σ) (memory : σ), v.OnlyAdds →
      (∀ r ∈ (collect p config v memory).records config, config.includesStructure r.name = true) ∧
      (collect p config v memory).ids.Nodup ∧
      (∀ id ∈ wanted, id ∈ (collect p config v memory).ids) ∧
      ∃ blocks, List.Forall₂ (IsBlock p config)
          (p.interfaceIds.filter fun id => endsWith id.name config.structureSuffix) blocks ∧
        collect p config v memory = blocks.flatten ∧
        (collect p config v memory).records config =
          (blocks.flatten.map (·.2)).filter fun r => config.includesStructure r.name) ∧
    ∀ ancestors : Ancestors,
      collect p config (fun _ id c => ((), ancestors id c)) () = ofProgram p config ancestors := by
  intro wanted
  have mem (id : InterfaceId) : id ∈ wanted ↔ id ∈ p.interfaceIds ∧
      endsWith id.name config.structureSuffix = true ∧
      config.includesStructure id.name = true ∧ (p.kind? config.kindEnum id).isSome := by
    simp [wanted, gets, wants, and_assoc]
  refine ⟨(nodup_eraseDups _).filter _, (pairwise_idxOf_eraseDups _).filter _, fun id => ?_, ?_,
    fun σ v memory adds => ?_, collect_forgetful p config⟩
  · rw [mem, Program.mem_interfaceIds]
  · rw [ofProgram_eq]
    exact records_filterMap _
  · have start : ids (memory, ([] : Catalog)).2 |>.Nodup := List.nodup_nil
    obtain ⟨blocks, isBlocks, heq, nodup, present⟩ := foldl_meet_blocks p config adds start
      (p.interfaceIds.filter fun id => endsWith id.name config.structureSuffix)
    rw [← p.structureDeclarations_eq, ← collect, List.nil_append] at heq
    rw [List.nil_append, ← heq] at nodup present
    refine ⟨fun r hr => (List.mem_filter.1 hr).2, nodup, fun id hid => ?_, blocks, isBlocks, heq, ?_⟩
    · obtain ⟨declared, suffix, included, kind⟩ := (mem id).1 hid
      exact present id (List.mem_filter.2 ⟨declared, suffix⟩) included kind
    · rw [heq]
      rfl

/-- A structure in two declarations that has its kind from an excluded one, which stands behind. -/
def derivedFirst : Program :=
  .ofFiles [.parse "a.ts"
    ("interface AStructure extends BSpecificStructure, BStructure \x7b\x7d " ++
      "interface BSpecificStructure \x7b kind: StructureKind.S \x7d " ++
      "interface BStructure \x7b kind: StructureKind.B \x7d interface AStructure \x7b\x7d").toList]

theorem derivedFirst_records : (Visitor.bases derivedFirst {}).OnlyAdds ∧
    (collect derivedFirst {} (.bases derivedFirst {}) ()).ids =
      [⟨0, "AStructure"⟩, ⟨0, "BSpecificStructure"⟩, ⟨0, "BStructure"⟩] ∧
    (collect derivedFirst {} (.bases derivedFirst {}) ()).ids.Nodup ∧
    (collect derivedFirst {} (.bases derivedFirst {}) ()).records {} =
      [⟨"AStructure", "S"⟩, ⟨"BStructure", "B"⟩] := by
  have adds := Visitor.bases_onlyAdds derivedFirst {}
  obtain ⟨-, -, -, -, visited, -⟩ := records_complete derivedFirst {}
  obtain ⟨-, nodup, -⟩ := visited Unit (.bases derivedFirst {}) () adds
  obtain ⟨ids, records⟩ : (collect derivedFirst {} (.bases derivedFirst {}) ()).ids =
      [⟨0, "AStructure"⟩, ⟨0, "BSpecificStructure"⟩, ⟨0, "BStructure"⟩] ∧
      (collect derivedFirst {} (.bases derivedFirst {}) ()).records {} =
        [⟨"AStructure", "S"⟩, ⟨"BStructure", "B"⟩] := by
    decide +kernel
  exact ⟨adds, ids, nodup, records⟩

end Catalog
end FactorySync
