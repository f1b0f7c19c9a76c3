import FactorySync.Import.Basic
import FactorySync.Program.Exports
import FactorySync.Reference.File
import FactorySync.Text.Edit

/-!
# Reconciling imports

The imports of a file are fitted to what the file reads. A binding that nothing uses goes; a free
name that another file of the project exports comes, into an import of that file if there is one
that takes names in braces, else into a new import. Imports that need no change keep their text.
-/

namespace FactorySync

/-- What becomes of an import declaration. -/
inductive ImportFate where
  | unchanged
  | replaced
  | removed
  deriving Repr, DecidableEq

/-- One import declaration and what is planned for it. -/
structure ImportPlan where
  node : Node
  /-- The import without the bindings that nothing uses. -/
  kept : Import
  /-- The bindings that nothing uses. -/
  dropped : List String
  /-- The names to be imported in addition. -/
  added : List String := []

namespace Import

/-- The import without the bindings that `used` refuses. -/
def restrict (used : String → Bool) (i : Import) : Import :=
  { i with
    defaultName := i.defaultName.filter used
    namespaceName := i.namespaceName.filter used
    items := i.items.filter fun item => used item.localName }

end Import

namespace ImportPlan

/-- The plan for a declaration before any name is added. -/
def ofNode (r : References) (n : Node) : ImportPlan :=
  let i := Import.ofNode n
  let kept := i.restrict r.uses
  { node := n, kept, dropped := i.localNames.filter (!kept.localNames.contains ·) }

/-- Whether names in braces can be added. -/
def acceptsNames (p : ImportPlan) : Bool :=
  (p.node.child? .importClause).isSome && !p.kept.isTypeOnly && p.kept.namespaceName.isNone

def fate (p : ImportPlan) : ImportFate :=
  if ¬ p.added.isEmpty then .replaced
  else if p.dropped.isEmpty then .unchanged
  else if p.kept.bindsNothing then .removed
  else .replaced

/-- Names in ascending order, as items of an import. -/
def sortedItems (names : List String) : List ImportItem :=
  (names.mergeSort fun a b => decide (a ≤ b)).map fun name => { exported := name }

/-- The import as it will be. -/
def result (p : ImportPlan) : Import := { p.kept with items := p.kept.items ++ sortedItems p.added }

/-- A span together with the blanks and the line break after it. -/
def lineSpan (text : List Char) (span : Span) : Span :=
  let rest := dropBytes span.stop text
  let blanks := rest.takeWhile fun c => c == ' ' || c == '\t'
  ⟨span.start, span.stop + blanks.length + newLineLength (rest.drop blanks.length)⟩

/-- The edit that carries out the plan, if there is anything to do. -/
def edit? (text : List Char) (p : ImportPlan) : Option Edit :=
  match p.fate with
  | .unchanged => none
  | .replaced => some (.replace p.node.span (p.result.text (Import.quoteOf p.node)))
  | .removed => some (.delete (lineSpan text p.node.span))

end ImportPlan

/-- The imports of a file as planned so far. -/
structure ImportDraft where
  plans : List ImportPlan
  /-- The imports to be made, each by its specifier and the names to import. -/
  fresh : List (String × List String) := []
  /-- All names to be imported, in the order of their first use. -/
  added : List String := []

namespace ImportDraft

/-- The draft before any name is added. -/
def ofFile (f : SourceFile) : ImportDraft :=
  { plans := f.imports.map (.ofNode f.references) }

/-- The names that the imports bind without those to be added. -/
def available (d : ImportDraft) : List String := d.plans.flatMap (·.kept.localNames)

/-- The names whose imports are dropped. -/
def removed (d : ImportDraft) : List String := d.plans.flatMap (·.dropped)

/-- Adds a name to the imports to be made. -/
def addFresh (specifier name : String) :
    List (String × List String) → List (String × List String)
  | [] => [(specifier, [name])]
  | (s, names) :: fresh =>
    if s = specifier then (s, names ++ [name]) :: fresh
    else (s, names) :: addFresh specifier name fresh

/-- Plans to import a name that another file exports. -/
def add (p : Program) (file exporter : FileId) (name : String) (d : ImportDraft) : ImportDraft :=
  let takes (plan : ImportPlan) : Bool :=
    plan.acceptsNames && p.resolveModule? file plan.kept.specifier == some exporter
  let d := { d with added := d.added ++ [name] }
  match d.plans.findIdx? takes with
  | some i =>
    { d with plans := d.plans.modify i fun plan => { plan with added := plan.added ++ [name] } }
  | none =>
    { d with fresh := addFresh (Path.specifier (p.path file) (p.path exporter)) name d.fresh }

/-- The first element for which a measure is least. -/
def firstLeast {α : Type} (measure : α → Nat) : List α → Option α
  | [] => none
  | a :: as =>
    match firstLeast measure as with
    | none => some a
    | some b => if measure a ≤ measure b then some a else some b

/-- The file to import a name from: of those that export it the one with the shortest specifier. -/
def exporter? (p : Program) (file : FileId) (name : String) : Option FileId :=
  firstLeast (fun id => (Path.specifier (p.path file) (p.path id)).utf8ByteSize)
    (p.exporters name file)

/-- Plans the imports of a file of a program. -/
def ofProgram (p : Program) (file : FileId) (f : SourceFile) : ImportDraft :=
  let draft := ofFile f
  let wanted := f.references.free.filter (!draft.available.contains ·)
  wanted.foldl (fun d name =>
    match exporter? p file name with
    | some exporter => d.add p file exporter name
    | none => d) draft

/-- The text of the imports to be made. -/
def freshTexts (d : ImportDraft) : List (List Char) :=
  let quote := (d.plans.head?.map fun plan => Import.quoteOf plan.node).getD .double
  d.fresh.map fun (specifier, names) =>
    Import.text quote { specifier, items := ImportPlan.sortedItems names }

/-- Where the imports to be made go: behind the last import that stays, else in front of the first
one, else, followed by an empty line, to the beginning of the file. -/
def freshEdit (newLine : List Char) (d : ImportDraft) : Edit :=
  match (d.plans.filter (·.fate != .removed)).getLast?, d.plans.head? with
  | some plan, _ => .insert plan.node.span.stop (d.freshTexts.flatMap (newLine ++ ·))
  | none, some plan => .insert plan.node.span.start (d.freshTexts.flatMap (· ++ newLine))
  | none, none => .insert 0 (d.freshTexts.flatMap (· ++ newLine) ++ newLine)

/-- The edits that carry out the draft. -/
def edits (text : List Char) (d : ImportDraft) : List Edit :=
  d.plans.filterMap (·.edit? text) ++
    if d.fresh.isEmpty then [] else [d.freshEdit (newLineOf text).text]

end ImportDraft

/-- A text with reconciled imports, and the bindings that came and went. -/
structure ImportChange where
  text : List Char
  added : List String
  removed : List String
  deriving Repr, DecidableEq

namespace Program

/-- Reconciles the imports of a file. -/
def reconcileImports (p : Program) (file : FileId) (f : SourceFile) :
    Except Edit.Fault ImportChange := do
  let draft := ImportDraft.ofProgram p file f
  return { text := ← Edit.applyAll f.text (draft.edits f.text), added := draft.added
           removed := draft.removed }

end Program
end FactorySync
