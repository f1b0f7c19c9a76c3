import FactorySync.Proofs.GeneratedMembers

/-!
# What a run does with the imports of a generated file

Each import of a generated file is a line of its own, so the plan for it says what becomes of that
line (`ImportPlan.pieces`). The imports to be made are lines behind those that stay. So the imports of
a generated file are reconciled to those of a generated file again
(`GeneratedFile.Read.reconcileImports`).
-/

namespace FactorySync

theorem Import.restrict_eq_self {i : Import} {used : String → Bool}
    (all : ∀ x ∈ i.localNames, used x = true) : i.restrict used = i := by
  have keeps {name : Option String} (all : ∀ x ∈ name.toList, used x = true) :
      name.filter used = name := by
    cases name with
    | none => rfl
    | some x => exact if_pos (all x List.mem_cons_self)
  obtain ⟨names, items⟩ := List.forall_mem_append.1 all
  obtain ⟨default, space⟩ := List.forall_mem_append.1 names
  have items : i.items.filter (fun item => used item.localName) = i.items :=
    List.filter_eq_self.2 fun item mem => items _ (List.mem_map_of_mem mem)
  rw [restrict, keeps default, keeps space, items]

/-! ## Lines of imports -/

namespace ImportPlan

variable {plan : ImportPlan} {plans : List ImportPlan} {text rest newLine : List Char} {pos : Nat}

/-- The text of the import as it would be printed. -/
def oldText (plan : ImportPlan) : List Char :=
  (Import.ofNode plan.node).text (Import.quoteOf plan.node)

/-- The text of the import as it will be. -/
def newText (plan : ImportPlan) : List Char := plan.result.text (Import.quoteOf plan.node)

def stays (plan : ImportPlan) : Bool := plan.fate != .removed

/-- What becomes of the text of an import that stays. -/
def piece (plan : ImportPlan) : Piece :=
  ⟨plan.oldText, if plan.fate = .replaced then some plan.newText else none⟩

/-- What becomes of the line of the import. -/
def pieces (newLine : List Char) (plan : ImportPlan) : List Piece :=
  if plan.stays then [plan.piece, ⟨newLine, none⟩] else [⟨plan.oldText ++ newLine, some []⟩]

/-- The imports are lines, the first of which begins at the offset. -/
inductive Lined (newLine : List Char) : Nat → List ImportPlan → Prop
  | nil {pos : Nat} : Lined newLine pos []
  | cons {pos : Nat} {plan : ImportPlan} {plans : List ImportPlan}
      (span : plan.node.span = .ofLength pos (byteLength plan.oldText))
      (rest : Lined newLine (pos + byteLength (plan.oldText ++ newLine)) plans) :
      Lined newLine pos (plan :: plans)

theorem before_pieces (newLine : List Char) (plan : ImportPlan) :
    Piece.before (plan.pieces newLine) = plan.oldText ++ newLine := by
  unfold pieces
  split <;> simp [piece]

theorem before_allPieces (newLine : List Char) (plans : List ImportPlan) :
    Piece.before (plans.flatMap (pieces newLine)) = plans.flatMap (·.oldText ++ newLine) := by
  induction plans with
  | nil => rfl
  | cons plan plans ih =>
    rw [List.flatMap_cons, Piece.before_append, before_pieces, ih, List.flatMap_cons]

/-- The import that stays is as it will be. -/
theorem result_piece (same : plan.fate = .unchanged → plan.newText = plan.oldText)
    (stays : plan.stays = true) : plan.piece.result = plan.newText := by
  unfold piece Piece.result
  split
  · rfl
  · next notReplaced =>
    refine (same ?_).symm
    cases fate : plan.fate with
    | unchanged => rfl
    | replaced => exact absurd fate notReplaced
    | removed => rw [ImportPlan.stays, fate] at stays; exact nomatch stays

theorem after_allPieces (newLine : List Char)
    (same : ∀ plan ∈ plans, plan.fate = .unchanged → plan.newText = plan.oldText) :
    Piece.after (plans.flatMap (pieces newLine)) =
      (plans.filter (·.stays)).flatMap (·.newText ++ newLine) := by
  induction plans with
  | nil => rfl
  | cons plan plans ih =>
    obtain ⟨first, others⟩ := List.forall_mem_cons.1 same
    rw [List.flatMap_cons, Piece.after_append, ih others, List.filter_cons, pieces]
    split
    · next stays =>
      rw [List.flatMap_cons, Piece.after_cons, result_piece first stays]
      simp [Piece.result]
    · simp [Piece.result]

theorem lineSpan_newLine {span : Span} {n : NewLine}
    (behind : StandsAt text span.stop (n.text ++ rest)) :
    lineSpan text span = ⟨span.start, span.stop + byteLength n.text⟩ := by
  rw [lineSpan, behind.dropBytes]
  cases n <;> rfl

theorem edit?_pieces {n : NewLine} (span : plan.node.span = .ofLength pos (byteLength plan.oldText))
    (behind : StandsAt text plan.node.span.stop (n.text ++ rest)) :
    (plan.edit? text).toList = Piece.edits pos (plan.pieces n.text) := by
  have line : lineSpan text plan.node.span =
      .ofLength pos (byteLength (plan.oldText ++ n.text)) := by
    rw [lineSpan_newLine behind, span, Span.ofLength, Span.ofLength, byteLength_append, Nat.add_assoc]
  cases fate : plan.fate with
  | unchanged => simp [edit?, pieces, stays, piece, fate, Piece.edits]
  | replaced => simp [edit?, pieces, stays, piece, fate, Piece.edits, span, newText]
  | removed => simp [edit?, pieces, stays, fate, Piece.edits, line, Edit.delete, Edit.replace]

/-- The plans and the pieces ask for the same edits. -/
theorem Lined.edits {n : NewLine} (h : Lined n.text pos plans)
    (place : StandsAt text pos (plans.flatMap (·.oldText ++ n.text) ++ rest)) :
    plans.filterMap (·.edit? text) = Piece.edits pos (plans.flatMap (pieces n.text)) := by
  rw [List.filterMap_eq_flatMap_toList]
  induction h with
  | nil => rfl
  | @cons pos plan plans span others ih =>
    rw [List.flatMap_cons, List.append_assoc] at place
    rw [List.flatMap_cons, List.flatMap_cons, Piece.edits_append, before_pieces, ← ih place.after]
    rw [List.append_assoc] at place
    have behind := place.after
    have stop : plan.node.span.stop = pos + byteLength plan.oldText := by rw [span]; rfl
    rw [← stop] at behind
    rw [edit?_pieces span behind]

theorem Lined.append {front : List ImportPlan} (h : Lined newLine pos (front ++ plans)) :
    Lined newLine pos front ∧
      Lined newLine (pos + byteLength (front.flatMap (·.oldText ++ newLine))) plans := by
  induction front generalizing pos with
  | nil => exact ⟨.nil, h⟩
  | cons plan front ih =>
    obtain _ | ⟨span, rest⟩ := h
    obtain ⟨inside, behind⟩ := ih rest
    rw [List.flatMap_cons, byteLength_append, ← Nat.add_assoc]
    exact ⟨.cons span inside, behind⟩

/-- Where an import ends among the pieces. -/
theorem Lined.stop {front back : List ImportPlan} (h : Lined newLine 0 (front ++ plan :: back)) :
    plan.node.span.stop = byteLength (Piece.before (front.flatMap (pieces newLine) ++ [plan.piece])) := by
  obtain _ | ⟨span, -⟩ := h.append.2
  rw [span, Piece.before_append, before_allPieces, byteLength_append, Piece.before_cons,
    Piece.before_nil, List.append_nil, Nat.zero_add]
  rfl

theorem oldText_ne_nil (plan : ImportPlan) : plan.oldText ≠ [] := by
  obtain ⟨front, ends⟩ := Import.text_ends (Import.ofNode plan.node) (Import.quoteOf plan.node)
  rw [oldText, ends]
  simp

/-- No import is empty. -/
theorem pieces_full (newLine rest : List Char) (plans : List ImportPlan) :
    ∀ p ∈ plans.flatMap (pieces newLine) ++ [⟨rest, none⟩], p.new.isSome → p.old ≠ [] := by
  refine List.forall_mem_append.2 ⟨fun p hp some => ?_, List.forall_mem_singleton.2 nofun⟩
  obtain ⟨plan, -, hp⟩ := List.mem_flatMap.1 hp
  have old := plan.oldText_ne_nil
  unfold pieces at hp
  split at hp
  · rcases List.mem_cons.1 hp with rfl | hp
    · exact old
    · rw [List.mem_singleton.1 hp] at some
      cases some
  · rw [List.mem_singleton.1 hp]
    exact List.append_ne_nil_of_left_ne_nil old _

end ImportPlan

/-! ## Drafts -/

theorem exists_getLast?_filter {α : Type} {p : α → Bool} {as : List α} {a : α}
    (h : (as.filter p).getLast? = some a) :
    ∃ front back, as = front ++ a :: back ∧ p a = true ∧ back.filter p = [] := by
  rw [List.getLast?_eq_head?_reverse, ← List.filter_reverse, List.head?_filter,
    List.find?_eq_some_iff_append] at h
  obtain ⟨here, back, front, same, behind⟩ := h
  refine ⟨front.reverse, back.reverse, ?_, here, ?_⟩
  · rw [← List.reverse_reverse as, same]
    simp
  · refine List.filter_eq_nil_iff.2 fun b hb => ?_
    have none := behind b (List.mem_reverse.1 hb)
    simpa using none

namespace ImportDraft

open ImportPlan (Lined)

variable {d : ImportDraft} {n : NewLine} {text rest : List Char}

/-- The lines of the imports that there will be. -/
def lines (newLine : List Char) (d : ImportDraft) : List Char :=
  (d.plans.filter (·.stays)).flatMap (·.newText ++ newLine) ++ d.freshTexts.flatMap (· ++ newLine)

/-- New imports come behind the last one that stays. -/
theorem applyAll_behind (lined : Lined n.text 0 d.plans) {plan : ImportPlan}
    {front back : List ImportPlan} (split : d.plans = front ++ plan :: back)
    (stays : plan.stays = true) (noOther : back.filter (·.stays) = [])
    (same : ∀ plan ∈ d.plans, plan.fate = .unchanged → plan.newText = plan.oldText) :
    Edit.applyAll (Piece.before (d.plans.flatMap (ImportPlan.pieces n.text) ++ [⟨rest, none⟩]))
        (Piece.edits 0 (d.plans.flatMap (ImportPlan.pieces n.text) ++ [⟨rest, none⟩]) ++
          [.insert plan.node.span.stop (d.freshTexts.flatMap (n.text ++ ·))]) =
      .ok (d.lines n.text ++ rest) := by
  have stop := Lined.stop (split ▸ lined)
  have full : ∀ p ∈ ⟨n.text, none⟩ :: (back.flatMap (ImportPlan.pieces n.text) ++ [⟨rest, none⟩]),
      p.new.isSome → p.old ≠ [] :=
    List.forall_mem_cons.2 ⟨nofun, ImportPlan.pieces_full n.text rest back⟩
  have sameFront : ∀ p ∈ front, p.fate = .unchanged → p.newText = p.oldText := fun p hp =>
    same p (split ▸ List.mem_append_left _ hp)
  have sameBack : ∀ p ∈ back, p.fate = .unchanged → p.newText = p.oldText := fun p hp =>
    same p (split ▸ List.mem_append_right _ (.tail _ hp))
  have before := ImportPlan.after_allPieces n.text sameFront
  have behind := ImportPlan.after_allPieces n.text sameBack
  have here := ImportPlan.result_piece
    (same plan (split ▸ List.mem_append_right _ List.mem_cons_self)) stays
  have pieces : d.plans.flatMap (ImportPlan.pieces n.text) ++ [⟨rest, none⟩] =
      (front.flatMap (ImportPlan.pieces n.text) ++ [plan.piece]) ++
        (⟨n.text, none⟩ :: (back.flatMap (ImportPlan.pieces n.text) ++ [⟨rest, none⟩])) := by
    rw [split, List.flatMap_append, List.flatMap_cons, ImportPlan.pieces, if_pos stays]
    simp
  have applied := Piece.applyAll_insert (front.flatMap (ImportPlan.pieces n.text) ++ [plan.piece]) full
    (d.freshTexts.flatMap (n.text ++ ·))
  rw [pieces, stop, applied, Piece.after_append, Piece.after_cons, Piece.after_cons,
    Piece.after_append, before, behind, noOther, here, lines, split]
  have order := flatMap_behind id n.text d.freshTexts
  simp only [id] at order
  simp [Piece.result, stays, noOther, ← order]

/-- The draft turns the lines of the imports that there are into those of the imports that there will
be. If there are none yet, an empty line follows those that are made. -/
theorem applyAll_edits (lined : Lined n.text 0 d.plans)
    (same : ∀ plan ∈ d.plans, plan.fate = .unchanged → plan.newText = plan.oldText)
    (newLine : newLineOf (d.plans.flatMap (·.oldText ++ n.text) ++ rest) = n) :
    Edit.applyAll (d.plans.flatMap (·.oldText ++ n.text) ++ rest)
        (d.edits (d.plans.flatMap (·.oldText ++ n.text) ++ rest)) =
      .ok (d.lines n.text ++
        ((if d.plans.isEmpty && !d.fresh.isEmpty then n.text else []) ++ rest)) := by
  have plans := lined.edits (.zero (d.plans.flatMap (·.oldText ++ n.text) ++ rest))
  have after := ImportPlan.after_allPieces n.text same
  have full := ImportPlan.pieces_full n.text rest d.plans
  rw [edits, plans, newLine]
  have text : d.plans.flatMap (·.oldText ++ n.text) ++ rest =
      Piece.before (d.plans.flatMap (ImportPlan.pieces n.text) ++ [⟨rest, none⟩]) := by
    rw [Piece.before_append, ImportPlan.before_allPieces]
    simp
  have all : Piece.edits 0 (d.plans.flatMap (ImportPlan.pieces n.text)) =
      Piece.edits 0 (d.plans.flatMap (ImportPlan.pieces n.text) ++ [⟨rest, none⟩]) := by
    rw [Piece.edits_append]
    exact (List.append_nil _).symm
  rw [text, all]
  cases fresh : d.fresh with
  | nil =>
    have noTexts : d.freshTexts = [] := by rw [freshTexts, fresh]; rfl
    rw [lines, noTexts]
    have applied := Piece.applyAll_edits
      (d.plans.flatMap (ImportPlan.pieces n.text) ++ [⟨rest, none⟩])
    rw [Piece.after_append, after] at applied
    simpa [Piece.result] using applied
  | cons entry entries =>
    have first (new : List Char) := Piece.applyAll_insert [] full new
    simp only [List.nil_append, Piece.before_nil, byteLength_nil, Piece.after_nil, Piece.after_append,
      after] at first
    simp only [List.isEmpty_cons, Bool.not_false, Bool.and_true, freshEdit]
    rw [if_neg Bool.false_ne_true]
    split
    · next last =>
      obtain ⟨front, back, split, stays, noOther⟩ := exists_getLast?_filter last
      rw [applyAll_behind lined split stays noOther same, split]
      simp
    · next plan none head =>
      have gone : d.plans.filter (·.stays) = [] := List.getLast?_eq_none_iff.1 none
      obtain ⟨plans', split⟩ := List.head?_eq_some_iff.1 head
      have start : plan.node.span.start = 0 := by
        rw [split] at lined
        obtain _ | ⟨span, -⟩ := lined
        rw [span]
        rfl
      rw [start, first, gone, lines, gone, split]
      simp [Piece.result]
    · next none head =>
      have noPlans : d.plans = [] := List.head?_eq_none_iff.1 head
      rw [first, lines, noPlans]
      simp [Piece.result]

/-! ## The imports afterwards -/

/-- The quote marks of the imports to be made. -/
def quote (d : ImportDraft) : QuoteMark :=
  (d.plans.head?.map fun plan => Import.quoteOf plan.node).getD .double

/-- The imports that there will be, with their quote marks. -/
def quotedImports (d : ImportDraft) : List (QuoteMark × Import) :=
  (d.plans.filter (·.stays)).map (fun plan => (Import.quoteOf plan.node, plan.result)) ++
    d.fresh.map fun entry => (d.quote, freshImport entry)

theorem quotedImports_imports (d : ImportDraft) : d.quotedImports.map (·.2) = d.imports := by
  rw [quotedImports, List.map_append, List.map_map, List.map_map]
  rfl

theorem lines_eq (newLine : List Char) (d : ImportDraft) :
    d.lines newLine = GeneratedFile.importLines newLine d.quotedImports := by
  rw [lines, GeneratedFile.importLines, quotedImports, List.flatMap_append, List.flatMap_map,
    List.flatMap_map, freshTexts, List.flatMap_map]
  rfl

variable {p : Program} {file : FileId} {f : SourceFile} {plan : ImportPlan}

/-- An import that is left alone is the one that there is. -/
theorem result_of_unchanged (hplan : plan ∈ (ofProgram p file f).plans)
    (unchanged : plan.fate = .unchanged) : plan.result = Import.ofNode plan.node := by
  obtain ⟨hnode, hkept⟩ := exists_ofNode hplan
  have dropped := dropped_ofProgram hplan
  have none : plan.added = [] ∧ plan.dropped = [] := by
    unfold ImportPlan.fate at unchanged
    split at unchanged
    · exact nomatch unchanged
    · next added =>
      split at unchanged
      · next dropped => exact ⟨by simpa using added, by simpa using dropped⟩
      · split at unchanged <;> exact nomatch unchanged
  rw [none.2] at dropped
  have kept : plan.kept = Import.ofNode plan.node := by
    rw [hkept]
    refine Import.restrict_eq_self fun x hx => ?_
    by_contra unused
    have gone := ImportPlan.mem_dropped.2 ⟨hx, Bool.not_eq_true _ |>.mp unused⟩
    rw [← dropped] at gone
    exact List.not_mem_nil gone
  rw [ImportPlan.result, none.1, kept]
  simp [ImportPlan.sortedItems]

/-- No import is made without names. -/
theorem fresh_ne_nil (p : Program) (file : FileId) (f : SourceFile) :
    ∀ entry ∈ (ofProgram p file f).fresh, entry.2 ≠ [] := by
  have step {specifier name : String} {fresh : List (String × List String)}
      (h : ∀ entry ∈ fresh, entry.2 ≠ []) :
      ∀ entry ∈ addFresh specifier name fresh, entry.2 ≠ [] := by
    induction fresh with
    | nil => exact List.forall_mem_singleton.2 (List.cons_ne_nil _ _)
    | cons first fresh ih =>
      obtain ⟨here, others⟩ := List.forall_mem_cons.1 h
      rw [addFresh]
      split
      · exact List.forall_mem_cons.2 ⟨by simp, others⟩
      · exact List.forall_mem_cons.2 ⟨here, ih others⟩
  refine ofProgram_induction (P := fun d => ∀ entry ∈ d.fresh, entry.2 ≠ [])
    (List.forall_mem_nil _) ?_
  intro d name exporter _ h
  unfold ImportDraft.add
  dsimp only
  split
  · exact h
  · exact step h

end ImportDraft

/-! ## Generated files -/

namespace GeneratedFile

open ImportDraft (ofProgram)
open ImportPlan (Lined)

variable {c : Config} {g : GeneratedFile} {f : SourceFile} {p : Program} {file : FileId}

/-- The plans for the imports of a generated file are plans for its lines. -/
theorem lined_of_importsAt {newLine : List Char} {pos : Nat} {imports : List (QuoteMark × Import)}
    {plans : List ImportPlan}
    (h : List.Forall₂ (fun P n => P n) (importsAt newLine pos imports) (plans.map (·.node))) :
    Lined newLine pos plans ∧
      plans.flatMap (·.oldText ++ newLine) = importLines newLine imports ∧
      ∀ plan ∈ plans, (Import.quoteOf plan.node, Import.ofNode plan.node) ∈ imports := by
  induction imports generalizing pos plans with
  | nil =>
    cases plans with
    | nil => exact ⟨.nil, rfl, List.forall_mem_nil _⟩
    | cons plan plans => cases h
  | cons i imports ih =>
    cases plans with
    | nil => cases h
    | cons plan plans =>
      obtain _ | ⟨first, others⟩ := h
      have first : ImportAt pos i plan.node := first
      obtain ⟨lined, lines, members⟩ := ih others
      have pair : (Import.quoteOf plan.node, Import.ofNode plan.node) = i := by
        rw [first.quote, first.same]
      have text : plan.oldText = i.2.text i.1 := by rw [ImportPlan.oldText, first.quote, first.same]
      have span : plan.node.span = .ofLength pos (byteLength plan.oldText) := by rw [first.span, text]; rfl
      refine ⟨.cons span (by rwa [text]), ?_, List.forall_mem_cons.2 ⟨?_, fun other hother =>
        List.mem_cons_of_mem i (members other hother)⟩⟩
      · rw [List.flatMap_cons, text, lines, importLines, importLines, List.flatMap_cons]
      · rw [pair]
        exact List.mem_cons_self

theorem Read.plans (h : g.Read c f) (p : Program) (file : FileId) :
    Lined g.newLine.text 0 (ofProgram p file f).plans ∧
      (ofProgram p file f).plans.flatMap (·.oldText ++ g.newLine.text) =
        importLines g.newLine.text g.imports ∧
      ∀ plan ∈ (ofProgram p file f).plans,
        (Import.quoteOf plan.node, Import.ofNode plan.node) ∈ g.imports := by
  have imports := h.imports
  rw [← ImportDraft.ofProgram_nodes p file f] at imports
  exact lined_of_importsAt imports

/-- The file with the imports of a draft. -/
def reconciled (g : GeneratedFile) (d : ImportDraft) : GeneratedFile :=
  { g with
    imports := d.quotedImports
    gap := if d.plans.isEmpty && !d.fresh.isEmpty then g.gap + 1 else g.gap }

theorem reconciled_text (g : GeneratedFile) (d : ImportDraft) : (g.reconciled d).text c =
    d.lines g.newLine.text ++ ((if d.plans.isEmpty && !d.fresh.isEmpty then g.newLine.text else []) ++
      (g.newLine.repeated g.gap ++ (head c ++ ' ' :: g.tailText))) := by
  rw [ImportDraft.lines_eq]
  unfold text reconciled
  dsimp only
  split
  · rw [← List.append_assoc g.newLine.text]
    rfl
  · rfl

/-- The imports of a generated file are reconciled as planned, and the rest stays. -/
theorem Read.reconcileImports (h : g.Read c f) (proper : g.Proper) (isName : IsName c.targetConst)
    (p : Program) (file : FileId) : p.reconcileImports file f = .ok {
      text := (g.reconciled (ofProgram p file f)).text c
      added := (ofProgram p file f).added
      removed := (ofProgram p file f).removed } := by
  obtain ⟨lined, lines, -⟩ := h.plans p file
  have text : f.text = (ofProgram p file f).plans.flatMap (·.oldText ++ g.newLine.text) ++
      (g.newLine.repeated g.gap ++ (head c ++ ' ' :: g.tailText)) := by
    rw [h.text, lines]
    rfl
  have newLine := proper.newLineOf isName
  rw [← h.text, text] at newLine
  refine Program.reconcileImports_eq_ok.2 ⟨?_, rfl, rfl⟩
  rw [text, ImportDraft.applyAll_edits lined ?_ newLine, reconciled_text]
  intro plan hplan unchanged
  rw [ImportPlan.newText, ImportDraft.result_of_unchanged hplan unchanged, ImportPlan.oldText]

theorem reconciled_proper {d : ImportDraft} (proper : g.Proper)
    (plans : ∀ plan ∈ d.plans, plan.stays = true → plan.result.Readable)
    (fresh : ∀ entry ∈ d.fresh, (ImportDraft.freshImport entry).Readable) :
    (g.reconciled d).Proper := by
  refine ⟨List.forall_mem_append.2 ⟨List.forall_mem_map.2 fun plan hplan => ?_,
    List.forall_mem_map.2 fresh⟩, proper.entries, proper.breaks⟩
  obtain ⟨hplan, stays⟩ := List.mem_filter.1 hplan
  exact plans plan hplan stays

/-- The imports can be read back. -/
theorem Proper.reconciled {path : String} (proper : g.Proper)
    (h : g.Read c (.parse path (g.text c))) (paths : ∀ id, OneLine (p.path id).toList) :
    (g.reconciled (ofProgram p file (.parse path (g.text c)))).Proper := by
  obtain ⟨-, -, members⟩ := h.plans p file
  have clean := h.clean
  refine reconciled_proper proper (fun plan hplan stays => ?_) fun entry hentry => ?_
  · have before := proper.imports _ (members plan hplan)
    cases fate : plan.fate with
    | unchanged => exact ImportDraft.result_of_unchanged hplan fate ▸ before
    | replaced =>
      obtain ⟨proper, binds⟩ := ImportDraft.result_of_replaced clean hplan fate
      have specifier : plan.result.specifier = (Import.ofNode plan.node).specifier := by
        rw [ImportPlan.result, (ImportDraft.exists_ofNode hplan).2]
        rfl
      exact ⟨proper, binds, specifier ▸ before.oneLine⟩
    | removed =>
      rw [ImportPlan.stays, fate] at stays
      cases stays
  · obtain ⟨exporter, specifier⟩ := ImportDraft.reaching p file _ entry hentry
    have names := ImportDraft.fresh_ne_nil p file _ entry hentry
    refine ⟨ImportDraft.fresh_proper clean entry hentry, ?_, fun a ha => ?_⟩
    · simp [Import.bindsNothing, ImportDraft.freshImport, ImportPlan.sortedItems_eq_nil, names]
    · have ha : a ∈ entry.1.toList := ha
      rw [specifier] at ha
      rcases Path.mem_specifier ha with rfl | rfl | there
      · decide
      · decide
      · exact paths exporter a there

/-! ## A second time -/

theorem Read.importBindings (h : g.Read c f) :
    f.importBindings = (g.imports.map (·.2)).flatMap Import.bindings := by
  have same {newLine : List Char} {pos : Nat} {imports : List (QuoteMark × Import)} {ns : List Node}
      (h : List.Forall₂ (fun P n => P n) (importsAt newLine pos imports) ns) :
      ns.map Import.ofNode = imports.map (·.2) := by
    induction imports generalizing pos ns with
    | nil =>
      cases h
      rfl
    | cons i imports ih =>
      obtain ⟨n, ns, first, others, rfl⟩ := List.forall₂_cons_left_iff.1 h
      have first : ImportAt pos i n := first
      rw [List.map_cons, List.map_cons, first.same, ih others]
  rw [← same h.imports, List.flatMap_map, SourceFile.importBindings]

/-- Imports that were reconciled are not changed again, if nothing else has changed: the file reads
the same names, and the same names are exported elsewhere. -/
theorem Read.reconcileImports_again {f' : SourceFile} {p' : Program}
    (h : (g.reconciled (ofProgram p file f)).Read c f') (references : f'.references = f.references)
    (exporters : ∀ x, p'.exporters x file = p.exporters x file) :
    p'.reconcileImports file f' = .ok { text := f'.text, added := [], removed := [] } := by
  have bindings : f'.importBindings = (ofProgram p file f).bindings := by
    rw [h.importBindings, ImportDraft.bindings, ← ImportDraft.quotedImports_imports]
    rfl
  have removed : (ofProgram p' file f').removed = [] := by
    rw [ImportDraft.removed_ofProgram, bindings, references]
    refine List.filter_eq_nil_iff.2 fun x hx => ?_
    rw [ImportDraft.uses_of_mem hx]
    exact Bool.false_ne_true
  have added : (ofProgram p' file f').added = [] := by
    refine List.eq_nil_iff_forall_not_mem.2 fun x hx => ?_
    obtain ⟨free, unbound, exported⟩ := ImportDraft.mem_added_iff.1 hx
    rw [references] at free
    rw [bindings] at unbound
    rw [exporters] at exported
    refine unbound (ImportDraft.mem_localNames.2 ?_)
    by_cases imported : x ∈ f.importBindings.map (·.localName)
    · exact .inl ⟨imported, ImportDraft.uses_of_free free⟩
    · exact .inr (ImportDraft.mem_added_iff.2 ⟨free, imported, exported⟩)
  refine Program.reconcileImports_eq_ok.2 ⟨?_, added.symm, removed.symm⟩
  rw [ImportDraft.edits_eq_nil added removed]
  exact Edit.applyAll_nil _

end GeneratedFile
end FactorySync
