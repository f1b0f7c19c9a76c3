import FactorySync.Proofs.Placement.Statements
import FactorySync.Proofs.Totality.Files

/-!
# Files wherever they stand

The productions agree on related readings, so the knots that are tied with them do, however deep
goals may be nested (`Parser.knot_alike`).
-/

namespace FactorySync

namespace Parser

open Parse
open Placement

variable {L : Placement} {s s' : State}

theorem produce_alike {goal : Goal} (like : L.Like s s')
    (isNew : goal = .construction → s.token.kind = .newKeyword) :
    L.AlikeAt s s' (produce goal) (produce goal) fun n _ n' => L.SameNode n n' := by
  cases goal with
  | statement => exact statement_alike like
  | assignment => exact Alike.deeper assignment_alike like
  | binary strength => exact binary_alike strength like
  | unary => exact unary_alike like
  | construction => exact construction_alike like (isNew rfl)
  | type => exact typeAt_alike false like
  | boundType => exact typeAt_alike true like
  | typeOperand => exact typeOperand_alike like
  | bindingName => exact bindingName_alike like

/-- What can be read where goals are nested at most `n` deep is read as well where they may be
nested deeper. -/
theorem knot_alike {n n' : Nat} (le : n ≤ n') : L.Knots (knot n) (knot n') where
  operands := knot_operands n
  leads := knot_leads n'
  goals := by
    induction n generalizing n' with
    | zero => exact fun _ _ hrun => nomatch hrun
    | succ n ih =>
      cases n' with
      | zero => exact absurd le (Nat.not_succ_le_zero n)
      | succ n' =>
        have le := Nat.le_of_succ_le_succ le
        have knots : L.Knots (knot n) (knot n') := ⟨knot_operands n, knot_leads n', ih le⟩
        exact fun {goal _ _ _ _} like isNew hrun => produce_alike like isNew knots hrun

/-! ## What stands in front -/

/-- The same nodes, with others in front of them. -/
def SameBehind (L : Placement) (before ns ns' : List Node) : Prop :=
  ∃ ms, L.SameNodes ns ms ∧ ns' = before ++ ms

/-- Reads a statement, the last of those found so far standing first. -/
def statementRound (stop : Kind → Bool) (found : List Node) : Parser (List Node ⊕ List Node) := do
  if ← (do return !stop (← kind) : Parser Bool) then return .inl ((← oneStatement stop) :: found)
  else return .inr found.reverse

/-- What becomes of the statements that are found up to the end of the file or a closing brace,
which is passed over. -/
def endRound (found : List Node) : Parser (List Node ⊕ List Node) := do
  if (← kind) = .closeBrace then
    note .statementExpected Problem.statementExpected_isError
    advance
    return .inl found
  else return .inr found

def fileRound (found : List Node) : Parser (List Node ⊕ List Node) := do
  let more ← statements Kind.endsBlock
  endRound (found ++ more)

section Before

variable {before found found' : List Node}

theorem SameBehind.append {more more' : List Node} (h : SameBehind L before found found')
    (same : L.SameNodes more more') : SameBehind L before (found ++ more) (found' ++ more') := by
  obtain ⟨ms, hms, rfl⟩ := h
  exact ⟨ms ++ more', hms.append same, List.append_assoc before ms more'⟩

theorem SameBehind.inRole (h : SameBehind L before found found') (role : Role) :
    SameBehind L (before.map (·.inRole role)) (found.map (·.inRole role))
      (found'.map (·.inRole role)) := by
  obtain ⟨ms, hms, rfl⟩ := h
  exact ⟨_, hms.inRole role, List.map_append⟩

theorem statementRound_alike (stop : Kind → Bool)
    (h : SameBehind L before found.reverse found'.reverse) :
    L.Alike (statementRound stop found) (statementRound stop found')
      (Sum.LiftRel (fun found found' => SameBehind L before found.reverse found'.reverse)
        (SameBehind L before)) := by
  refine .bind (R := Eq) (.andThen .kind fun k => .pure rfl) fun more _ heq => heq ▸ ?_
  split
  · refine .bind (oneStatement_alike stop) fun n n' same => .pure (.inl ?_)
    rw [List.reverse_cons, List.reverse_cons]
    exact h.append (.cons same .nil)
  · exact .pure (.inr h)

theorem endRound_alike (h : SameBehind L before found found') :
    L.Alike (endRound found) (endRound found')
      (Sum.LiftRel (SameBehind L before) (SameBehind L before)) := by
  refine .andThen .kind fun k => ?_
  split
  · exact .andThen .note fun _ => .andThen .advance fun _ => .pure (.inl h)
  · exact .pure (.inr h)

theorem fileRound_alike (h : SameBehind L before found found') :
    L.Alike (fileRound found) (fileRound found')
      (Sum.LiftRel (SameBehind L before) (SameBehind L before)) := by
  exact .bind (statements_alike _) fun more more' same => endRound_alike (h.append same)

end Before

end Parser

namespace SourceFile

open FactorySync.Parser Parse Placement

variable {path : String} {text : List Char}

/-- How a file is read. -/
theorem parse_run (path : String) (text : List Char) :
    ∃ ns t, (loop fileRound []).run (knot (allowance text.length))
        { toReading := firstReading path text, size := text.length } = some (ns, t) ∧
      (parse path text).tree =
        { role := .file, kind := .sourceFile, span := ⟨0, byteLength text⟩, detail := .file path
          children := ns } ∧
      (parse path text).notes = Diagnostics.sort (t.notes.reverse ++ t.scanner.diagnostics) := by
  obtain ⟨ns, t, hrun, -⟩ := fileStatements_answers path text (knot_leads _) (knot_grants _)
  refine ⟨ns, t, hrun, ?_⟩
  rw [parse, parse?, hrun]
  exact ⟨rfl, rfl⟩

theorem firstReading_exact (path : String) (text : List Char) :
    (firstReading path text).Exact text where
  sound := firstReading_sound path text
  word _ := Scanner.next_word
  named := Scanner.next_named _

/-- What is wanted of all nodes that are made is true of the tree of the whole text. -/
theorem parse_good (L : Placement) (path : String) : L.Good (parse path L.text).tree := by
  obtain ⟨ns, t, hrun, tree, -⟩ := parse_run path L.text
  have exact := firstReading_exact path L.text
  have like : L.Like { toReading := firstReading path L.text, size := L.text.length }
      { toReading := L.reading (firstReading path L.text), size := L.text.length } :=
    ⟨exact, rfl, rfl, rfl, Nat.le_refl _⟩
  have rounds : L.Alike (loop fileRound []) (loop fileRound []) (SameBehind L []) :=
    .loop (fun _ _ => fileRound_alike) ⟨[], .nil, rfl⟩
  obtain ⟨-, -, -, ⟨ms, same, -⟩, -⟩ := rounds like (knot_alike (Nat.le_refl _)) hrun
  rw [tree]
  exact L.make ⟨nofun, .inr nofun, fun _ => nofun, nofun, nofun⟩ same.good

end SourceFile

/-! ## Single nodes -/

namespace Node

variable {text : List Char} {n : Node}

theorem Grouped.inRole {op : Mark} {p : Nat} {left right : Node} (role : Role)
    (h : n.Grouped text op p left right) : (n.inRole role).Grouped text op p left right :=
  ⟨h.marks, h.children, h.roles, h.operands, h.left_strength, h.right_strength, h.first, h.before,
    h.spelled, h.behind, h.last⟩

theorem ownNames_inRole {role : Role} : (n.inRole role).ownNames = n.ownNames := by
  cases n
  rfl

theorem Made.inRole (role : Role) (h : n.Made text) : (n.inRole role).Made text where
  grouped p strength := by
    obtain ⟨op, left, right, grouped⟩ := h.grouped p strength
    exact ⟨op, left, right, grouped.inRole role⟩
  named := h.named
  mentions complete x hx := h.mentions complete.ofRole x (ownNames_inRole ▸ hx)
  imports kind complete := h.imports kind complete.ofRole
  separated := h.separated

/-- Every node in the tree is as the grammar makes it. -/
def AllMade (text : List Char) (n : Node) : Prop := ∀ m, n.Contains m → m.Made text

theorem AllMade.make (made : n.Made text) (children : ∀ c ∈ n.children, c.AllMade text) :
    n.AllMade text := by
  intro m contains
  cases contains with
  | self => exact made
  | child mem inner => exact children _ mem m inner

theorem AllMade.inRole {role : Role} (h : n.AllMade text) : (n.inRole role).AllMade text :=
  .make ((h n (.self n)).inRole role) fun _ mem _ inner => h _ (.child mem inner)

end Node

/-- A text where it stands, of whose nodes is asked what each is by itself. -/
def Placement.whole (text : List Char) : Placement where
  text
  distance := 0
  notes := []
  diagnostics := []
  earlier := nofun
  Good := Node.AllMade text
  make := .make
  inRole := .inRole

/-- Whatever the text, every node of its tree is as the grammar makes it. -/
theorem SourceFile.made_of_contains {path : String} {text : List Char} {n : Node}
    (found : (parse path text).tree.Contains n) : n.Made text :=
  parse_good (.whole text) path n found

end FactorySync
