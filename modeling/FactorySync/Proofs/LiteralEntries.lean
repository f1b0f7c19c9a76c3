import FactorySync.Literal.Clear
import FactorySync.Proofs.FactoryWords
import FactorySync.Proofs.Outlines
import FactorySync.Proofs.PrintedConstant

/-!
# Entries of a literal

An `Entry` is a member of an object literal that stands on lines of its own, with a comma behind it:
a method that a run has put there (`Entry.ofFactory`) or one written by hand. What is asked of it is
that its text is a row of words which is read as one member in front of any comma
(`Entry.Readable`). So it is read in the same way wherever lines of entries stand.
-/

namespace FactorySync

open Parse

/-- A member on lines of its own, with a comma behind it. -/
structure Entry where
  /-- What stands between the line break in front of the member and the member: blanks and
  comments. -/
  lead : List Char
  /-- The text of the member. -/
  code : List Char
  /-- The first word of the member. -/
  first : Word
  /-- The other words of the member. -/
  others : List Word
  /-- What the member is read as, wherever it stands. -/
  tree : Node

namespace Entry

/-- The words of the member, where it starts a line. -/
def words (e : Entry) : List Word := e.first.onNewLine :: e.others

/-- The lines of the member, but for the line break in front of the first one. -/
def lines (e : Entry) : List Char := e.lead ++ (e.code ++ [','])

/-- The member as one that is read, wherever it stands. -/
def member (e : Entry) : Member where
  index := 0
  element := e.tree
  fullStart := 0
  separatorEnd := none

/-- Whether a run takes the member for one of its own. -/
def isGenerated (c : Config) (e : Entry) : Bool := e.member.isGenerated c.generatedPrefix

/-- The indentation of the member, if nothing else stands in front of it on its line. -/
def indentation? (e : Entry) : Option (List Char) := indentationBefore? e.lead (byteLength e.lead)

/-- How much nesting there is room for inside of a member. -/
def room : Nat := Parser.maxDepth - 1

/-- The member is read as what it stands for in front of any comma. -/
structure Readable (e : Entry) : Prop where
  lead : ∃ lineBreak, Trivia.Passes e.lead lineBreak
  begins : ∀ cs fileStart, Trivia.ofChars fileStart (e.code ++ cs) = {}
  spells : ∀ {tail cs ws}, Spells tail cs ws →
    Spells tail (e.code ++ ',' :: cs) (e.first :: (e.others ++ .mark .comma ',' :: ws))
  /-- The first word begins a member, and the literal does not look like an arrow function. -/
  first : e.first.kind.endsBlock = false ∧ e.first.kind ≠ .equalsGreaterThan
  reads : ∀ {context : Context} (ws : List Word), context.clean = true → context.Room room →
    Parser.objectMember.ReadsRow context (e.words ++ .mark .comma ',' :: ws)
      (.mark .comma ',' :: ws) fun n => n.outline = e.tree.outline

variable {e : Entry} {tail cs : List Char} {ws : List Word}

theorem lines_getLast? (front : List Char) (e : Entry) :
    (front ++ e.lines).getLast? = some ',' := by
  rw [lines, ← List.append_assoc, ← List.append_assoc, List.getLast?_concat]

theorem Readable.gap (readable : e.Readable) (n : NewLine) :
    Trivia.Passes (n.text ++ e.lead) true := by
  obtain ⟨lineBreak, passes⟩ := readable.lead
  exact (Trivia.Passes.newLine n).append passes

/-- Behind a line break the lines are the words of the member and a comma. -/
theorem Readable.lines_spell (readable : e.Readable) (n : NewLine) (h : Spells tail cs ws) :
    Spells tail (n.text ++ e.lines ++ cs) (e.words ++ .mark .comma ',' :: ws) := by
  have all := (readable.spells h).onNewLine (readable.gap n)
  simpa [lines, words] using all

end Entry

/-- A name begins a member. -/
theorem Kind.ofName_begins (x : String) :
    (ofName x).endsBlock = false ∧ ofName x ≠ .equalsGreaterThan := by
  have isWord := isPropertyWord_ofName x
  have ne {k : Kind} (other : k.isPropertyWord = false) : ofName x ≠ k := by
    rintro same
    rw [same, other] at isWord
    cases isWord
  refine ⟨?_, ne rfl⟩
  rw [endsBlock, beq_false_of_ne (ne rfl), beq_false_of_ne (ne rfl)]
  rfl

/-! ## Methods as they are printed -/

open FactorySync.Parser

namespace FactoryTerm

theorem tree_outline (t : FactoryTerm) (flags : NodeFlags) :
    (t.tree flags).outline = (t.tree {}).outline := by
  simp [FactoryTerm.tree, methodTree, blockTree, returnTree, ReturnedValue.tree, Node.outline_mk,
    Node.outline_inRole]

/-- A method, with these gaps in front of it, in front of its statement and behind that. -/
def entry (t : FactoryTerm) (lead inside behind : List Char) : Entry where
  lead
  code := t.text inside behind
  first := .name t.name
  others := t.words.tail
  tree := t.tree {}

theorem Fits.entry_readable {t : FactoryTerm} {lead inside behind : List Char} {b : Bool}
    (fits : t.Fits) (front : Trivia.Passes lead b) (first : Trivia.Passes inside true)
    (second : Trivia.Passes behind true) (shallow : t.parameterType.nesting + 2 ≤ Entry.room) :
    (t.entry lead inside behind).Readable where
  lead := ⟨b, front⟩
  begins := fits.begins inside behind
  spells := fits.spells first second
  first := Kind.ofName_begins t.name
  reads _ _ room := (fits.readsRow (room.mono shallow)).mono fun _ ⟨flags, hn⟩ =>
    (Node.outline_of_unplaced hn).trans (t.tree_outline flags)

end FactoryTerm

namespace Entry

variable {c : Config} {l : MemberLayout} {r : StructureRecord}

/-- The factory of a structure. -/
def ofFactory (c : Config) (l : MemberLayout) (r : StructureRecord) : Entry :=
  (FactoryTerm.ofRecord c r).entry (FactoryTerm.lead c r l) (l.newLine ++ (l.member ++ l.unit))
    (l.newLine ++ l.member)

theorem ofFactory_readable (blank : l.Blank) (config : c.Plain) (plain : r.Plain) :
    (ofFactory c l r).Readable := by
  obtain ⟨n, newLine⟩ := blank.newLine
  have member := Trivia.Passes.blanks blank.member
  have inside := (Trivia.Passes.newLine n).append
    (member.append (Trivia.Passes.blanks blank.unit))
  have behind := (Trivia.Passes.newLine n).append member
  rw [ofFactory, newLine]
  exact (FactoryTerm.ofRecord_fits config plain).entry_readable
    (FactoryTerm.lead_passes blank plain) inside behind (by decide : 3 ≤ room)

theorem ofFactory_lines (blank : l.Blank) (config : c.Plain) (plain : r.Plain) :
    l.newLine ++ (ofFactory c l r).lines = l.factoryText (.ofRecord c r) :=
  (FactoryTerm.factoryText_eq blank config plain).symm

end Entry
end FactorySync
