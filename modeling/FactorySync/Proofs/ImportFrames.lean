import FactorySync.Proofs.Output
import FactorySync.Proofs.Splices

/-!
# Edits to imports stay with the imports

Whatever becomes of the imports of a file without errors, each edit is to one of them as a whole, or
inserts something at one of its ends, and the edits follow one another
(`Program.reconcileImports_frame`). So the statements that are no imports are copied, and no two of
the copies overlap.
-/

namespace FactorySync

open Parse

variable {text : List Char}

namespace Edit

/-- What edits to the imports of a file look like. A deletion takes the blanks behind the import
with it, and the line break that ends them if there is one. -/
inductive ToImports (text : List Char) (imports : List Node) : Edit → Prop
  | replaces {n : Node} {added : List Char} (mem : n ∈ imports) :
    ToImports text imports (.replace n.span added)
  | deletes {n : Node} {blanks line rest : List Char} (mem : n ∈ imports)
    (behind : dropBytes n.span.stop text = blanks ++ (line ++ rest))
    (blank : ∀ c ∈ blanks, c = ' ' ∨ c = '\t')
    (line_break : line = ['\r', '\n'] ∨ line = ['\n'] ∨
      line = [] ∧ newLineLength rest = 0 ∧ ∀ c ∈ rest.head?, c ≠ ' ' ∧ c ≠ '\t') :
    ToImports text imports
      (.delete ⟨n.span.start, n.span.stop + byteLength (blanks ++ line)⟩)
  | insertsBefore {n : Node} {added : List Char} (mem : n ∈ imports) :
    ToImports text imports (.insert n.span.start added)
  | insertsBehind {n : Node} {added : List Char} (mem : n ∈ imports) :
    ToImports text imports (.insert n.span.stop added)
  | insertsFirst {added : List Char} (none : imports = []) :
    ToImports text imports (.insert 0 added)

/-! ## Copies do not overlap -/

/-- What follows a spared piece goes behind the copy of the piece. -/
theorem target_add_le {cursor lo hi pos : Nat} {es : List Edit} (begun : cursor ≤ lo)
    (le : lo ≤ hi) (hpos : hi ≤ pos) (spared : ∀ e ∈ es, e.Spares lo hi) :
    target cursor es lo + (hi - lo) ≤ target cursor es pos := by
  induction es generalizing cursor with
  | nil =>
    simp only [target]
    omega
  | cons e es ih =>
    simp only [target]
    by_cases passed : e.span.stop ≤ lo
    · rw [if_pos passed, if_pos (by omega)]
      have := ih passed fun e' h => spared e' (.tail e h)
      omega
    · have ahead := (spared e List.mem_cons_self).resolve_left passed
      rw [if_neg passed]
      split <;> omega

end Edit

/-- A text begins with a line break of either kind or with none. -/
theorem newLineLength_cases (cs : List Char) : ∃ line rest, cs = line ++ rest ∧
    newLineLength cs = line.length ∧
      (line = ['\r', '\n'] ∨ line = ['\n'] ∨ line = [] ∧ newLineLength cs = 0) := by
  fun_cases newLineLength cs with
  | case1 rest => exact ⟨['\r', '\n'], rest, rfl, rfl, .inl rfl⟩
  | case2 rest => exact ⟨['\n'], rest, rfl, rfl, .inr (.inl rfl)⟩
  | case3 => exact ⟨[], cs, rfl, rfl, .inr (.inr ⟨rfl, rfl⟩)⟩

namespace ImportPlan

/-- The span that goes with a deleted import ends behind the blanks and the line break. -/
theorem lineSpan_tail (text : List Char) (span : Span) : ∃ blanks line rest,
    dropBytes span.stop text = blanks ++ (line ++ rest) ∧
    lineSpan text span = ⟨span.start, span.stop + byteLength (blanks ++ line)⟩ ∧
    (∀ c ∈ blanks, c = ' ' ∨ c = '\t') ∧
    (line = ['\r', '\n'] ∨ line = ['\n'] ∨
      line = [] ∧ newLineLength rest = 0 ∧ ∀ c ∈ rest.head?, c ≠ ' ' ∧ c ≠ '\t') := by
  let isBlank : Char → Bool := fun c => c == ' ' || c == '\t'
  let behind := dropBytes span.stop text
  obtain ⟨line, rest, hrest, hlength, hline⟩ :=
    newLineLength_cases (behind.drop (behind.takeWhile isBlank).length)
  have blank : ∀ c ∈ behind.takeWhile isBlank, c = ' ' ∨ c = '\t' := fun c hc => by
    simpa [isBlank] using List.all_eq_true.1 List.all_takeWhile c hc
  have single : ∀ c ∈ behind.takeWhile isBlank ++ line, c.utf8Size = 1 := by
    intro c hc
    rcases List.mem_append.1 hc with hc | hc
    · rcases blank c hc with rfl | rfl <;> rfl
    · rcases hline with rfl | rfl | ⟨rfl, -⟩
      all_goals simp at hc
      · rcases hc with rfl | rfl <;> rfl
      · rw [hc]; rfl
  refine ⟨behind.takeWhile isBlank, line, rest, ?_, ?_, blank, ?_⟩
  · rw [← hrest, takeWhile_append_drop]
  · rw [byteLength_eq_length single, List.length_append, ← hlength, ← Nat.add_assoc]
    rfl
  · refine hline.imp_right (Or.imp_right fun ⟨empty, noBreak⟩ => ?_)
    rw [empty, List.nil_append] at hrest
    refine ⟨empty, hrest ▸ noBreak, fun c hc => ?_⟩
    have stops := List.head?_dropWhile_not isBlank behind
    have dropped : behind.dropWhile isBlank = rest := by
      have whole : behind.takeWhile isBlank ++ behind.dropWhile isBlank =
          behind.takeWhile isBlank ++ rest := by
        rw [List.takeWhile_append_dropWhile, ← hrest, takeWhile_append_drop]
      exact List.append_cancel_left whole
    rw [dropped, hc] at stops
    simpa [isBlank] using stops

/-- The edit to an import replaces it as a whole or deletes it with the rest of its line. -/
theorem edit?_toImports {p : ImportPlan} {e : Edit} {imports : List Node}
    (he : p.edit? text = some e) (mem : p.node ∈ imports) : e.ToImports text imports := by
  unfold edit? at he
  split at he
  · cases he
  · cases he
    exact .replaces mem
  · cases he
    obtain ⟨blanks, line, rest, behind, span, blank, line_break⟩ := lineSpan_tail text p.node.span
    rw [span]
    exact .deletes mem behind blank line_break

end ImportPlan

namespace ImportDraft

variable {d : ImportDraft}

/-- All edits of a draft are to its imports. -/
theorem edits_toImports (d : ImportDraft) :
    ∀ e ∈ d.edits text, e.ToImports text (d.plans.map (·.node)) := by
  intro e he
  rcases List.mem_append.1 he with he | he
  · obtain ⟨plan, hplan, hedit⟩ := List.mem_filterMap.1 he
    exact ImportPlan.edit?_toImports hedit (List.mem_map_of_mem hplan)
  · split at he
    · exact absurd he List.not_mem_nil
    · rw [List.mem_singleton.1 he]
      unfold freshEdit
      split
      · next plan hlast =>
        have hplan := (List.mem_filter.1 (List.mem_of_getLast? hlast)).1
        exact .insertsBehind (List.mem_map_of_mem hplan)
      · next plan _ hhead => exact .insertsBefore (List.mem_map_of_mem (List.mem_of_head? hhead))
      · next hhead =>
        have none : d.plans = [] := List.head?_eq_none_iff.1 hhead
        exact .insertsFirst (by rw [none]; rfl)

end ImportDraft

/-- The edits that reconcile the imports of a file without errors are cut cleanly, follow one
another and are to the imports, so they can be carried out. The other statements keep their text,
and their copies follow one another as they do. -/
theorem Program.reconcileImports_frame {path : String}
    (clean : (SourceFile.parse path text).hasErrors = false) (p : Program) (file : FileId) :
    let f := SourceFile.parse path text
    let edits := (ImportDraft.ofProgram p file f).edits text
    (∀ e ∈ edits, e.span.Cuts text ∧ e.ToImports text f.imports) ∧
    edits.Pairwise (fun a b => a.Apart b ∨ b.Apart a) ∧
    (Edit.sorted edits).IsChain Edit.Apart ∧
    ∃ change, p.reconcileImports file f = .ok change ∧
      Edit.applyAll text edits = .ok change.text ∧
      ∃ moved : Nat → Nat,
        (∀ n ∈ f.statements, n.kind ≠ .importDeclaration →
          Copied text change.text n.span.start n.span.stop (moved n.span.start)) ∧
        (f.statements.filter (·.kind != .importDeclaration)).Pairwise fun n m =>
          moved n.span.start + n.span.length ≤ moved m.span.start := by
  dsimp only
  have nodes := ImportDraft.ofProgram_nodes p file (SourceFile.parse path text)
  have order : InOrder text
      ((ImportDraft.ofProgram p file (.parse path text)).plans.map (·.node)) := by
    rw [nodes]
    exact SourceFile.imports_inOrder clean
  obtain ⟨last, reads⟩ := SourceFile.reads_statements clean
  have statements := reads.inOrder (Parser.firstReading_sound path text)
  obtain ⟨change, hchange⟩ := p.reconcileImports_isOk file clean
  have hout := (reconcileImports_eq_ok.1 hchange).1
  rw [SourceFile.parse_text] at hout
  have cuts := ImportDraft.edits_cuts order
  have compatible := ImportDraft.edits_compatible order
  have spared {n : Node} (hn : n ∈ (SourceFile.parse path text).statements)
      (other : n.kind ≠ .importDeclaration) :=
    SourceFile.statement_spared clean p file hn other
  refine ⟨fun e he => ⟨cuts e he, ?_⟩, compatible.imp fun {a b} pair => ?_,
    (Edit.mergeSort_apart compatible).isChain, change, hchange, hout,
    Edit.target 0 (Edit.sorted ((ImportDraft.ofProgram p file (.parse path text)).edits text)),
    fun n hn other => ?_, ?_⟩
  · rw [← nodes]
    exact ImportDraft.edits_toImports _ e he
  · exact (Bool.or_eq_true .. ▸ Edit.before_total a b).imp pair.1 pair.2
  · exact Edit.applyAll_copied cuts hout (statements.cuts n hn) (spared hn other)
  · refine (statements.pairwise.filter _).imp_of_mem fun {n m} hn hm le => ?_
    obtain ⟨hn, other⟩ := List.mem_filter.1 hn
    exact Edit.target_add_le (Nat.zero_le _) (statements.cuts n hn).start_le_stop le fun e he =>
      spared hn (by simpa using other) e (List.mem_mergeSort.1 he)

/-- An import that is not used stands on one line with a statement whose type is to be imported. -/
def oneLine : String := "import {B} from 'b'; let x: A"

theorem oneLine_read :
    (SourceFile.parse "Structure.generated.ts" oneLine.toList).hasErrors = false ∧
    ∃ n ∈ (SourceFile.parse "Structure.generated.ts" oneLine.toList).statements,
      n.kind ≠ .importDeclaration ∧ n.span = ⟨21, 29⟩ ∧
        sliceBytes 21 29 oneLine.toList = "let x: A".toList := by
  decide +kernel

/-- The statement is still there when the import has gone and another one has come. -/
theorem oneLine_frame :
    (SourceFile.parse "Structure.generated.ts" oneLine.toList).hasErrors = false ∧
    ∃ change, (Program.ofProject (Generation.besideType oneLine)).reconcileImports 1
        (.parse "Structure.generated.ts" oneLine.toList) = .ok change ∧
      ∃ start more, StandsAt change.text start ("let x: A".toList ++ more) := by
  obtain ⟨clean, n, mem, other, place, written⟩ := oneLine_read
  obtain ⟨-, -, -, change, ok, -, moved, copied, -⟩ :=
    Program.reconcileImports_frame clean (.ofProject (Generation.besideType oneLine)) 1
  obtain ⟨more, stands⟩ := copied n mem other
  rw [place] at stands
  dsimp only at stands
  rw [written] at stands
  exact ⟨clean, change, ok, _, more, stands⟩

end FactorySync
