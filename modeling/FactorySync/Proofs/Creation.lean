import FactorySync.Proofs.Conflict
import FactorySync.Proofs.Outlines
import FactorySync.Proofs.Preservation

/-!
# What a run creates

A run that succeeds creates one factory for each structure of the catalog, in the order of the
catalog. No two of them have one name, no member that stays has the name of one, and in the text
they stand in one block behind all that belongs to the members (`Generation.run_creates`). So a
literal that is read as the members that stay and the new factories has exactly these methods with a
generated name, each once and behind all other members.

Whether it is read like that is another matter. What stands behind the last member on its line is
taken for a comment up to the line feed, but a comment can end sooner, and then the place of the
factories need not be inside the literal (`Generation.separatedComment_misses`). Otherwise the
factories are read in every literal that is read up to where they were put in, so it has these
methods last if the members in front of them are those that stay (`Generation.Passage.holdsLast`).
-/

namespace FactorySync

/-! ## Members by their names -/

/-- Whether a member is a method, and its name. -/
def Member.heading (m : Member) : Bool × Option String := (m.isMethod, m.name?)

theorem Member.isGenerated_congr {m n : Member} (h : m.heading = n.heading) (lead : String) :
    m.isGenerated lead = n.isGenerated lead := by
  obtain ⟨method, name⟩ := Prod.mk.inj h
  rw [isGenerated, isGenerated, method, name]

theorem Member.ofElements_headings (index start : Nat) (ns : List Node) (ends : List (Option Nat)) :
    (ofElements index start ns ends).map (·.heading) =
      ns.map fun n => (n.kind == .methodDeclaration, n.memberName?) := by
  induction ns generalizing index start ends with
  | nil => rfl
  | cons n ns ih => exact congrArg (_ :: ·) (ih ..)

/-- The generated methods of a literal have these names, one each. They are behind all its other
members, and none of those has one of the names. -/
def Node.HoldsLast (lead : String) (names : List String) (literal : Node) : Prop :=
  ∃ others new, literal.members = others ++ new ∧
    (∀ m ∈ others, m.isGenerated lead = false ∧ ∀ x, m.name? = some x → x ∉ names) ∧
    (∀ m ∈ new, m.isGenerated lead = true) ∧ new.map (·.name?) = names.map some

theorem startsWith_append (lead tail : String) : startsWith (lead ++ tail) lead = true := by
  simp [startsWith, List.isPrefixOf_iff_prefix]

/-- A literal holds the names last if it is read as members without the names and methods with
them. -/
theorem Node.holdsLast_of_headings {lead : String} {names : List String} {kept : List Member}
    {literal : Node}
    (headings : literal.members.map (·.heading) =
      kept.map (·.heading) ++ names.map fun x => (true, some x))
    (generated : ∀ x ∈ names, startsWith x lead = true)
    (other : ∀ m ∈ kept, m.isGenerated lead = false ∧ ∀ x, m.name? = some x → x ∉ names) :
    literal.HoldsLast lead names := by
  obtain ⟨others, new, hmembers, hothers, hnew⟩ := List.map_eq_append_iff.1 headings
  refine ⟨others, new, hmembers, fun m hm => ?_, fun m hm => ?_, ?_⟩
  · obtain ⟨k, hk, same⟩ := List.mem_map.1 (hothers ▸ List.mem_map_of_mem hm)
    rw [← Member.isGenerated_congr same, ← show k.name? = m.name? from congrArg Prod.snd same]
    exact other k hk
  · obtain ⟨x, hx, same⟩ := List.mem_map.1 (hnew ▸ List.mem_map_of_mem hm)
    obtain ⟨method, name⟩ := Prod.mk.inj same
    simp [Member.isGenerated, ← method, ← name, generated x hx]
  · have second := congrArg (List.map Prod.snd) hnew
    rwa [List.map_map, List.map_map] at second

namespace Generation

open GenerationProblem (ofLookup)

variable {project : Project} {c : Config} {literal : Node}
variable {held : List (StructureRecord × Factory)} {x : String}

/-! ## Names that are held once -/

theorem holder?_isSome : (holder? x held).isSome = true ↔ x ∈ held.map (·.2.name) := by
  simp [holder?, List.find?_isSome]

theorem holder?_eq_none : holder? x held = none ↔ x ∉ held.map (·.2.name) := by
  rw [← holder?_isSome, Bool.not_eq_true, Option.isSome_eq_false_iff, Option.isNone_iff_eq_none]

theorem rivals?_eq_none_iff {rest : List (StructureRecord × Factory)} :
    rivals? held rest = none ↔
      (rest.map (·.2.name)).Nodup ∧ ∀ x ∈ rest.map (·.2.name), x ∉ held.map (·.2.name) := by
  -- what is held grows along the list, so it varies in the induction
  induction rest generalizing held with
  | nil => simp [rivals?]
  | cons r rest ih =>
    rw [rivals?]
    cases h : holder? r.2.name held with
    | some first =>
      have taken : r.2.name ∈ held.map (·.2.name) := holder?_isSome.1 (by rw [h]; rfl)
      exact iff_of_false (by simp) fun apart => apart.2 _ List.mem_cons_self taken
    | none =>
      have free := holder?_eq_none.1 h
      dsimp only
      rw [ih, List.map_append, List.map_cons, List.map_cons, List.map_nil]
      generalize held.map (·.2.name) = names at free ⊢
      generalize rest.map (·.2.name) = more
      simp only [List.mem_append, List.mem_singleton, List.nodup_cons, List.forall_mem_cons]
      grind

theorem collision?_eq_none_iff : collision? c literal held = none ↔
    ∀ m ∈ literal.members, m.isGenerated c.generatedPrefix = false →
      ∀ x, m.name? = some x → x ∉ held.map (·.2.name) := by
  simp only [collision?, List.findSome?_eq_none_iff, List.mem_filter, Bool.not_eq_true', and_imp]
  refine forall_congr' fun m => forall_congr' fun _ => forall_congr' fun _ => ?_
  cases m.name? with
  | none => exact iff_of_true rfl nofun
  | some x =>
    simp only [Option.some.injEq, forall_eq', ← holder?_eq_none]
    cases h : holder? x held <;> simp [bind, h]

/-- Every name is held once. -/
theorem checkNames_iff : checkNames c literal held = .ok () ↔
    (held.map (·.2.name)).Nodup ∧ ∀ m ∈ literal.members, m.isGenerated c.generatedPrefix = false →
      ∀ x, m.name? = some x → x ∉ held.map (·.2.name) := by
  rw [checkNames_eq_ok, Option.orElse_eq_orElse, Option.orElse_eq_or, Option.or_eq_none_iff,
    rivals?_eq_none_iff, collision?_eq_none_iff]
  simp

/-! ## Created factories -/

/-- What a run that succeeds creates, on its way from the literal it finds. -/
structure Passage.Creates {o : Outcome} (p : Passage project c o) : Prop where
  /-- There is one factory for each structure of the catalog. -/
  created_eq : o.created = (factories project c).map (·.name)
  created_nodup : o.created.Nodup
  removed_eq :
    o.removed = (p.literal.members.filter (·.isGenerated c.generatedPrefix)).filterMap (·.name?)
  /-- What stays has none of the names. -/
  apart : ∀ m ∈ p.literal.members, m.isGenerated c.generatedPrefix = false →
    ∀ x, m.name? = some x → x ∉ o.created
  /-- The factories come to stand in one block, -/
  filled_eq : factories project c ≠ [] → p.filled = p.room.insertionFront p.cleared ++
    ((factories project c).flatMap
        (MemberLayout.ofLiteral p.cleared c.indent.toList p.room).factoryText ++
      p.room.insertionBack p.cleared (.ofLiteral p.cleared c.indent.toList p.room))
  /-- which is behind all members. -/
  keeps : ∀ m ∈ p.room.members, takeBytes m.fullStop p.cleared <+: p.room.insertionFront p.cleared
  /-- A literal that is read as what stays and the factories has these as its generated methods. -/
  holdsLast : ∀ final : Node,
    final.members.map (·.heading) =
        (p.literal.members.filter (!·.isGenerated c.generatedPrefix)).map (·.heading) ++
          o.created.map (fun x => (true, some x)) →
      final.HoldsLast c.generatedPrefix o.created

section Again

variable {o : Outcome} (p : Passage project c o)

/-- The factories are read in every literal of the new text that is read up to where they were put
in, unless a line separator hides in the comment behind the last member. -/
theorem Passage.resumes (some : o.created ≠ []) (config : c.Plain)
    (plain : ∀ r ∈ (Catalog.ofProgram (.ofProject project) c).records c, r.Plain)
    (blank : ∀ b ∈ c.indent.toList, CharClass.isBlank b = true)
    (line : ∀ b ∈ p.room.lineComment p.cleared, CharClass.isLineBreak b = false) :
    SourceFile.ResumesWith p.filled
      (byteLength (takeBytes p.room.insertionPlace p.cleared ++ p.room.missingComma)) c
      ((Catalog.ofProgram (.ofProject project) c).records c) := by
  obtain ⟨r, s, sound, reads⟩ := target_reads p.cleared_intact p.room_target
  rw [SourceFile.parse_text] at sound
  have isLiteral := (target_contains p.cleared_intact p.room_target).2
  have fills := p.fills
  rw [Node.insertFactories_text reads sound isLiteral] at fills
  obtain ⟨hfilled, hcreated⟩ := MemberChange.mk.inj (Except.ok.inj fills)
  have someFactory : factories project c ≠ [] := fun none => some (by rw [← hcreated, none]; rfl)
  have someRecord : (Catalog.ofProgram (.ofProject project) c).records c ≠ [] := fun none =>
    someFactory (by rw [factories, none]; rfl)
  rw [if_neg (by simpa using someFactory)] at hfilled
  dsimp only at hfilled
  rw [factories, List.flatMap_map] at hfilled
  rw [← hfilled]
  exact Node.insertion_resumes reads sound isLiteral someRecord config plain blank line

/-- A factory is read as a method with its name. -/
theorem factory_heading {r : StructureRecord} {n : Node} {flags : NodeFlags}
    (h : n.unplaced = ((FactoryTerm.ofRecord c r).tree flags).inRole .properties) :
    n.role = .properties ∧
      (n.kind == .methodDeclaration, n.memberName?) = (true, some (Factory.ofRecord c r).name) := by
  have outline := Node.outline_of_unplaced h
  refine ⟨?_, Prod.ext ?_ ?_⟩
  · rw [← Node.outline_role, outline, Node.outline_role]
    rfl
  · show (n.kind == _) = true
    rw [← Node.outline_kind, outline, Node.outline_kind]
    rfl
  · show n.memberName? = _
    rw [← Node.memberName?_outline, outline, Node.memberName?_outline]
    rfl

theorem factory_headings {records : List StructureRecord} {new : List Node}
    (h : List.Forall₂ (fun r n => ∃ flags,
      n.unplaced = ((FactoryTerm.ofRecord c r).tree flags).inRole .properties) records new) :
    (new.filter (·.role == .properties)).map
        (fun n => (n.kind == .methodDeclaration, n.memberName?)) =
      (records.map fun r => (Factory.ofRecord c r).name).map fun x => (true, some x) := by
  induction h with
  | nil => rfl
  | cons method _ ih =>
    obtain ⟨flags, method⟩ := method
    obtain ⟨role, heading⟩ := factory_heading method
    rw [List.filter_cons_of_pos (by simpa using role), List.map_cons, heading, ih]
    rfl

/-- The literal is one of the new text that is read up to where the factories were put in, and the
members in front of them are those that stay. -/
structure Passage.ReadsAgain (final : Node) : Prop where
  found : (SourceFile.parse o.path p.filled).tree.Contains final
  isLiteral : final.kind = .objectLiteralExpression
  readsTo : final.ReadsTo
    (byteLength (takeBytes p.room.insertionPlace p.cleared ++ p.room.missingComma))
  count : final.members.length =
    (p.literal.members.filter (!·.isGenerated c.generatedPrefix)).length + o.created.length
  front : (p.literal.members.filter (!·.isGenerated c.generatedPrefix)).map (·.heading) <+:
    final.members.map (·.heading)

/-- So it has the factories last. -/
theorem Passage.holdsLast (creates : p.Creates) (some : o.created ≠ []) (config : c.Plain)
    (plain : ∀ r ∈ (Catalog.ofProgram (.ofProject project) c).records c, r.Plain)
    (blank : ∀ b ∈ c.indent.toList, CharClass.isBlank b = true)
    (line : ∀ b ∈ p.room.lineComment p.cleared, CharClass.isLineBreak b = false) {final : Node}
    (again : p.ReadsAgain final) : final.HoldsLast c.generatedPrefix o.created := by
  obtain ⟨old, new, children, -, methods⟩ := p.resumes some config plain blank line o.path final
    (intact_eq_ok.1 p.filled_intact).2 again.found again.isLiteral again.readsTo
  have names : o.created =
      ((Catalog.ofProgram (.ofProject project) c).records c).map fun r => (Factory.ofRecord c r).name := by
    rw [creates.created_eq, factories, List.map_map]
    rfl
  have headings : final.members.map (·.heading) =
      (old.filter (·.role == .properties)).map
          (fun n => (n.kind == .methodDeclaration, n.memberName?)) ++
        o.created.map fun x => (true, Option.some x) := by
    rw [Node.members, Member.ofElements_headings, Node.childrenIn, children, List.filter_append,
      List.map_append, factory_headings methods, names]
  obtain ⟨rest, front⟩ := again.front
  have lengths := congrArg List.length headings
  simp only [List.length_map, List.length_append, again.count] at lengths
  have same := List.append_inj_left (front.trans headings) (by simp only [List.length_map]; omega)
  exact creates.holdsLast final (same ▸ headings)

end Again

end Generation
end FactorySync
