import FactorySync.Program.Kinds
import Mathlib.Data.List.Perm.Subperm
import Mathlib.Logic.Relation

/-!
# Inherited kinds

The interfaces of a project make a graph: an interface without a property `kind` of its own leads on
to those that it extends (`Program.InheritsFrom`). `Program.KindSearch` describes the search through
this graph without a bound on its depth. The search keeps to simple paths, since it gives up on an
interface whose bases are being searched already. There are no longer simple paths than there are
interfaces, so the search ends (`Program.kindType?_searches`); and every path to a kind has a simple
one within it, so nothing is lost (`Program.kindType?_isSome_iff`). The stack of the machine that
searches is not part of the model, so a chain of interfaces may be as long as the project has it.
-/

namespace FactorySync

/-- An entry after `extends` with the interface that it means. -/
structure Heritage where
  entry : Node
  base : InterfaceId

namespace Program

variable {p : Program} {path : List InterfaceId} {b : Bindings} {a c id last : InterfaceId}
variable {answer : Option Node}

/-! ## The graph -/

/-- The property `kind` that an interface declares itself. -/
def ownKind? (p : Program) (id : InterfaceId) : Option Node :=
  (p.interface? id).bind (·.kindProperty?)

/-- The interface declares a property `kind`, and its type is written there. -/
def DeclaresKind (p : Program) (id : InterfaceId) : Prop :=
  ∃ property type, p.ownKind? id = some property ∧ property.child? .declaredType = some type

/-- The interfaces that an interface extends, as far as they are known. -/
def heritage (p : Program) (id : InterfaceId) : List Heritage :=
  (((p.interface? id).map (·.bases)).getD []).filterMap fun entry =>
    ((entry.child? .expression).bind (p.resolveInterface? id.file)).map (⟨entry, ·⟩)

/-- An interface has its kind from another one: it declares none and extends the other one. -/
def InheritsFrom (p : Program) (a c : InterfaceId) : Prop :=
  p.ownKind? a = none ∧ ∃ e ∈ p.heritage a, e.base = c

theorem InheritsFrom.of_base (without : (p.ownKind? a).isNone = true)
    (base : c ∈ (p.heritage a).map (·.base)) : p.InheritsFrom a c :=
  ⟨Option.isNone_iff_eq_none.1 without, List.mem_map.1 base⟩

/-- The type parameters of an interface. -/
def parametersOf (p : Program) (id : InterfaceId) : List Node :=
  ((p.interface? id).map (·.typeParameters)).getD []

/-- The bindings for the type parameters of an extended interface. -/
def bindingsFor (p : Program) (outer : Bindings) (e : Heritage) : Bindings :=
  outer.ofArguments (p.parametersOf e.base) (e.entry.childrenIn .typeArguments)

theorem mem_interfaces_of_found {i : Interface} (found : p.interface? id = some i) :
    id ∈ p.interfaces.map (·.id) := by
  unfold interface? at found
  exact List.mem_map.2 ⟨i, List.mem_of_find?_eq_some found, by simpa using List.find?_some found⟩

/-- The edges of the graph as they are written: an entry stands in an `extends` clause of one of the
declarations, and it leads to the interface that its name means in their file. -/
theorem mem_heritage {e : Heritage} : e ∈ p.heritage id ↔ ∃ i, p.interface? id = some i ∧
    (∃ declaration ∈ i.declarations, ∃ clause ∈ declaration.childrenIn .heritageClauses,
      clause.detail = .heritage .extendsKeyword ∧ e.entry ∈ clause.childrenIn .types) ∧
    ∃ name, e.entry.child? .expression = some name ∧
      p.resolveInterface? id.file name = some e.base := by
  obtain ⟨entry, base⟩ := e
  cases found : p.interface? id with
  | none => simp [heritage, found]
  | some i =>
    simp [heritage, found, Interface.bases, Option.bind_eq_some_iff, and_assoc]

theorem mem_allInterfaceDeclarations {files : List SourceFile} {n : Node} :
    (id, n) ∈ allInterfaceDeclarations files ↔ ∃ f, files[id.file]? = some f ∧ n ∈ f.statements ∧
      n.kind = .interfaceDeclaration ∧ (n.nameIn? .name).getD "" = id.name := by
  obtain ⟨file, name⟩ := id
  simp only [allInterfaceDeclarations, interfaceDeclarations, List.mem_flatMap, List.mem_map,
    List.mem_filter, Prod.exists, List.mem_zipIdx_iff_getElem?, Prod.mk.injEq, InterfaceId.mk.injEq,
    beq_iff_eq]
  constructor
  · rintro ⟨f, _, here, _, ⟨mem, kind⟩, ⟨rfl, named⟩, rfl⟩
    exact ⟨f, here, mem, kind, named⟩
  · rintro ⟨f, here, mem, kind, named⟩
    exact ⟨f, file, here, n, ⟨mem, kind⟩, ⟨rfl, named⟩, rfl⟩

/-- The declarations of an interface are those of its name among the statements of its file. -/
theorem mem_declarations {files : List SourceFile} {i : Interface} {n : Node}
    (found : (ofFiles files).interface? id = some i) :
    n ∈ i.declarations ↔ ∃ f, files[id.file]? = some f ∧ n ∈ f.statements ∧
      n.kind = .interfaceDeclaration ∧ (n.nameIn? .name).getD "" = id.name := by
  have same : i.id = id := by simpa using List.find?_some found
  obtain ⟨known, -, made⟩ := List.mem_map.1 (List.mem_of_find?_eq_some found)
  subst made
  dsimp only at same
  subst same
  rw [← mem_allInterfaceDeclarations, List.mem_map]
  constructor
  · rintro ⟨⟨other, n⟩, mem, rfl⟩
    obtain ⟨mem, same⟩ := List.mem_filter.1 mem
    rwa [← eq_of_beq same]
  · exact fun mem => ⟨_, List.mem_filter.2 ⟨mem, BEq.rfl⟩, rfl⟩

theorem interface?_isSome {files : List SourceFile} {n : Node}
    (mem : (id, n) ∈ allInterfaceDeclarations files) :
    ((ofFiles files).interface? id).isSome = true := by
  refine List.find?_isSome.2 ⟨_, List.mem_map.2 ⟨id, ?_, rfl⟩, BEq.rfl⟩
  exact List.mem_eraseDups.2 (List.mem_map.2 ⟨_, mem, rfl⟩)

/-- The edges of the graph of a project, read off its files: an interface leads on to what the
entries of the `extends` clauses mean that the statements of its name and file have. -/
theorem mem_heritage_ofFiles {files : List SourceFile} {e : Heritage} :
    e ∈ (ofFiles files).heritage id ↔
      (∃ f, files[id.file]? = some f ∧ ∃ n ∈ f.statements, n.kind = .interfaceDeclaration ∧
        (n.nameIn? .name).getD "" = id.name ∧ ∃ clause ∈ n.childrenIn .heritageClauses,
          clause.detail = .heritage .extendsKeyword ∧ e.entry ∈ clause.childrenIn .types) ∧
      ∃ name, e.entry.child? .expression = some name ∧
        (ofFiles files).resolveInterface? id.file name = some e.base := by
  rw [mem_heritage]
  constructor
  · rintro ⟨i, found, ⟨n, declared, clause⟩, meant⟩
    obtain ⟨f, here, mem, kind, named⟩ := (mem_declarations found).1 declared
    exact ⟨⟨f, here, n, mem, kind, named, clause⟩, meant⟩
  · rintro ⟨⟨f, here, n, mem, kind, named, clause⟩, meant⟩
    obtain ⟨i, found⟩ := Option.isSome_iff_exists.1
      (interface?_isSome (mem_allInterfaceDeclarations.2 ⟨f, here, mem, kind, named⟩))
    exact ⟨i, found, ⟨n, (mem_declarations found).2 ⟨f, here, mem, kind, named⟩, clause⟩, meant⟩

theorem mem_interfaces_of_heritage {e : Heritage} (he : e ∈ p.heritage id) :
    id ∈ p.interfaces.map (·.id) := by
  obtain ⟨i, found, -⟩ := mem_heritage.1 he
  exact mem_interfaces_of_found found

/-! ## The search -/

/-- With the interfaces on `path` left out, the search for the kind of an interface comes to an end,
and `answer` is what it finds. The bases are searched one after the other up to the first that has
an answer, but the search of each would end. -/
inductive KindSearch (p : Program) :
    List InterfaceId → Bindings → InterfaceId → Option Node → Prop
  | again {path : List InterfaceId} {b : Bindings} {id : InterfaceId} (before : id ∈ path) :
      KindSearch p path b id none
  | own {path : List InterfaceId} {b : Bindings} {id : InterfaceId} {property : Node}
      (new : id ∉ path) (own : p.ownKind? id = some property) :
      KindSearch p path b id ((property.child? .declaredType).map b.apply)
  | inherited {path : List InterfaceId} {b : Bindings} {id : InterfaceId}
      {answer : Heritage → Option Node} (new : id ∉ path) (without : p.ownKind? id = none)
      (bases : ∀ e ∈ p.heritage id, KindSearch p (id :: path) (p.bindingsFor b e) e.base (answer e)) :
      KindSearch p path b id ((p.heritage id).findSome? answer)

theorem findSome?_filterMap {α β γ : Type} (f : α → Option β) (g : β → Option γ) (l : List α) :
    (l.filterMap f).findSome? g = l.findSome? fun x => (f x).bind g := by
  rw [← List.head?_filterMap, List.filterMap_filterMap, List.head?_filterMap]

theorem kindType?_succ (p : Program) (depth : Nat) (path : List InterfaceId) (b : Bindings)
    (id : InterfaceId) : p.kindType? (depth + 1) path b id =
      if id ∈ path then none
      else
        match p.ownKind? id with
        | some property => (property.child? .declaredType).map b.apply
        | none => (p.heritage id).findSome? fun e =>
            p.kindType? depth (id :: path) (p.bindingsFor b e) e.base := by
  rw [kindType?]
  split
  · rfl
  · unfold ownKind? heritage
    cases p.interface? id with
    | none => rfl
    | some i =>
      simp only [Option.bind_some, Option.map_some, Option.getD_some, Option.bind_eq_bind]
      cases i.kindProperty? with
      | some property =>
        dsimp only
        cases property.child? .declaredType <;> rfl
      | none =>
        dsimp only
        rw [findSome?_filterMap]
        congr 1
        funext entry
        cases (entry.child? .expression).bind (p.resolveInterface? id.file) <;> rfl

/-- The depth is never used up: what is on the path are different interfaces of the project. -/
theorem kindType?_searches {depth : Nat} (distinct : path.Nodup)
    (known : path ⊆ p.interfaces.map (·.id))
    (enough : p.interfaces.length < depth + path.length) :
    p.KindSearch path b id (p.kindType? depth path b id) := by
  induction depth generalizing path b id with
  | zero =>
    have fits := (List.subperm_of_subset distinct known).length_le
    rw [List.length_map] at fits
    omega
  | succ depth ih =>
    rw [kindType?_succ]
    by_cases new : id ∈ path
    · rw [if_pos new]
      exact .again new
    · rw [if_neg new]
      cases own : p.ownKind? id with
      | some property => exact .own new own
      | none =>
        refine .inherited new own fun e he => ih (List.nodup_cons.2 ⟨new, distinct⟩)
          (List.cons_subset.2 ⟨mem_interfaces_of_heritage he, known⟩) ?_
        rw [List.length_cons]
        omega

/-! ## What is found -/

/-- What is found has been inherited along a path. -/
theorem KindSearch.inherits (h : p.KindSearch path b id answer) (found : answer.isSome = true) :
    ∃ last, Relation.ReflTransGen p.InheritsFrom id last ∧ p.DeclaresKind last := by
  induction h with
  | again => exact nomatch found
  | @own _ _ id property _ own =>
    rw [Option.isSome_map] at found
    obtain ⟨type, annotated⟩ := Option.isSome_iff_exists.1 found
    exact ⟨id, .refl, property, type, own, annotated⟩
  | inherited _ without _ ih =>
    obtain ⟨e, he, found⟩ := List.findSome?_isSome_iff.1 found
    obtain ⟨last, reached, declares⟩ := ih e he found
    exact ⟨last, .head ⟨without, e, he, rfl⟩ reached, declares⟩

/-- A step to an interface that is not on the path. -/
def InheritsOff (p : Program) (path : List InterfaceId) (a c : InterfaceId) : Prop :=
  p.InheritsFrom a c ∧ c ∉ path

/-- A path that goes on from an interface leaves it for good at some point. -/
theorem InheritsOff.leaves (h : Relation.ReflTransGen (p.InheritsOff path) a last) : a = last ∨
    ∃ c, p.InheritsFrom a c ∧ c ∉ a :: path ∧
      Relation.ReflTransGen (p.InheritsOff (a :: path)) c last := by
  induction h with
  | refl => exact .inl rfl
  | @tail d e _ step ih =>
    by_cases same : e = a
    · exact .inl same.symm
    · have off : e ∉ a :: path := by simp [same, step.2]
      right
      rcases ih with rfl | ⟨c, first, new, rest⟩
      · exact ⟨e, step.1, off, .refl⟩
      · exact ⟨c, first, new, .tail rest ⟨step.1, off⟩⟩

/-- If nothing is found, no path that keeps off the interfaces left out comes to a kind. -/
theorem KindSearch.nothing (h : p.KindSearch path b id answer) (none : answer = none)
    (new : id ∉ path) (reached : Relation.ReflTransGen (p.InheritsOff path) id last) :
    ¬ p.DeclaresKind last := by
  induction h with
  | again before => exact absurd before new
  | own _ own =>
    rintro ⟨property, type, own', annotated⟩
    rcases InheritsOff.leaves reached with rfl | ⟨c, step, -, -⟩
    · obtain rfl := Option.some_inj.1 (own.symm.trans own')
      simp [annotated] at none
    · exact nomatch own.symm.trans step.1
  | inherited _ without _ ih =>
    intro declares
    rcases InheritsOff.leaves reached with rfl | ⟨c, ⟨-, e, he, rfl⟩, off, rest⟩
    · obtain ⟨property, -, own, -⟩ := declares
      exact nomatch without.symm.trans own
    · exact ih e he (List.findSome?_eq_none_iff.1 none e he) off rest declares

/-- Whatever circles the interfaces of a project make, the search for the type of a kind comes to an
end, and it finds one exactly if the interface inherits, in any number of steps, from one that
declares its kind. -/
theorem kindType?_isSome_iff (p : Program) (b : Bindings) (id : InterfaceId) :
    p.KindSearch [] b id (p.kindType? (p.interfaces.length + 1) [] b id) ∧
      ((p.kindType? (p.interfaces.length + 1) [] b id).isSome = true ↔
        ∃ last, Relation.ReflTransGen p.InheritsFrom id last ∧ p.DeclaresKind last) := by
  have search : p.KindSearch [] b id (p.kindType? (p.interfaces.length + 1) [] b id) :=
    kindType?_searches List.nodup_nil (List.nil_subset _) (by simp)
  refine ⟨search, search.inherits, ?_⟩
  rintro ⟨last, reached, declares⟩
  by_contra nothing
  have free : ∀ a c, p.InheritsFrom a c → p.InheritsOff [] a c :=
    fun _ _ step => ⟨step, List.not_mem_nil⟩
  exact search.nothing (by simpa using nothing) List.not_mem_nil
    (Relation.ReflTransGen.mono free _ _ reached) declares

/-- Two interfaces that extend each other, the second of which also extends one with a kind. -/
def circle : Program :=
  .ofFiles [.parse "a.ts"
    "interface A extends B \x7b\x7d interface B extends A, C \x7b\x7d interface C \x7bkind: K\x7d".toList]

theorem circle_read :
    ((circle.ownKind? ⟨0, "A"⟩).isNone = true ∧ (circle.ownKind? ⟨0, "B"⟩).isNone = true ∧
      ((circle.ownKind? ⟨0, "C"⟩).bind (·.child? .declaredType)).isSome = true) ∧
    (circle.heritage ⟨0, "A"⟩).map (·.base) = [⟨0, "B"⟩] ∧
    (circle.heritage ⟨0, "B"⟩).map (·.base) = [⟨0, "A"⟩, ⟨0, "C"⟩] := by
  decide +kernel

/-- The circle leads back to where it began, and the kind behind it is found all the same. -/
theorem circle_kind : Relation.TransGen circle.InheritsFrom ⟨0, "A"⟩ ⟨0, "A"⟩ ∧
    (circle.kindType? (circle.interfaces.length + 1) [] [] ⟨0, "A"⟩).isSome = true := by
  obtain ⟨⟨noneA, noneB, kindC⟩, basesA, basesB⟩ := circle_read
  have toB : circle.InheritsFrom ⟨0, "A"⟩ ⟨0, "B"⟩ := .of_base noneA (by rw [basesA]; decide)
  have toA : circle.InheritsFrom ⟨0, "B"⟩ ⟨0, "A"⟩ := .of_base noneB (by rw [basesB]; decide)
  have toC : circle.InheritsFrom ⟨0, "B"⟩ ⟨0, "C"⟩ := .of_base noneB (by rw [basesB]; decide)
  obtain ⟨type, found⟩ := Option.isSome_iff_exists.1 kindC
  obtain ⟨property, own, annotated⟩ := Option.bind_eq_some_iff.1 found
  exact ⟨.tail (.single toB) toA, (kindType?_isSome_iff circle [] ⟨0, "A"⟩).2.2
    ⟨⟨0, "C"⟩, .tail (.single toB) toC, property, type, own, annotated⟩⟩

end Program
end FactorySync
