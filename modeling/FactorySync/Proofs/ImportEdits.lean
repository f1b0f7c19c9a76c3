import FactorySync.Import.Reconcile
import FactorySync.Proofs.Edits
import FactorySync.Proofs.Tiling

/-!
# Reconciling imports never fails

The statements of a file without errors follow one another, so the spans of its imports are apart,
even with the line break behind an import that is deleted. New imports go to the end of an import
that stays, or to where the first one begins. Hence the edits of a draft never overlap
(`Program.reconcileImports_isOk`).
-/

namespace FactorySync

open Parse

variable {text : List Char}

/-- The imports of a file without errors lie in order. -/
theorem SourceFile.imports_inOrder {path : String}
    (clean : (parse path text).hasErrors = false) : InOrder text (parse path text).imports := by
  obtain ⟨last, reads⟩ := reads_statements clean
  exact (reads.inOrder (Parser.firstReading_sound path text)).filter _

namespace ImportPlan

theorem lineSpan_split (text : List Char) (span : Span) : ∃ ws rest,
    dropBytes span.stop text = ws ++ rest ∧
      lineSpan text span = ⟨span.start, span.stop + byteLength ws⟩ ∧
        ∀ c ∈ ws, (CharClass.isLineBreak c || CharClass.isBlank c) = true := by
  obtain ⟨ws, rest, heq, hlength, blank⟩ := blanks_split (p := fun c => c == ' ' || c == '\t')
    (by simp) (dropBytes span.stop text)
  exact ⟨ws, rest, heq, by rw [hlength, ← Nat.add_assoc]; rfl, blank⟩

/-- The line break behind a deleted import ends before the next token. -/
theorem lineSpan_stop_le {span : Span} {pos : Nat} (cuts : span.Cuts text)
    (token : TokenStart text pos) (le : span.stop ≤ pos) : (lineSpan text span).stop ≤ pos := by
  obtain ⟨ws, rest, heq, hspan, blank⟩ := lineSpan_split text span
  have place : StandsAt text span.stop (ws ++ rest) := heq ▸ .of_boundary cuts.stop_boundary
  rw [hspan]
  exact token.after_blanks place blank le

theorem lineSpan_cuts {span : Span} (cuts : span.Cuts text) : (lineSpan text span).Cuts text := by
  obtain ⟨ws, rest, heq, hspan, -⟩ := lineSpan_split text span
  have place : StandsAt text span.stop (ws ++ rest) := heq ▸ .of_boundary cuts.stop_boundary
  rw [hspan]
  exact ⟨Nat.le_trans cuts.start_le_stop (Nat.le_add_right _ _), cuts.start_boundary,
    place.after.isBoundary⟩

/-- An edit to an import begins where the import does and ends before the next token. -/
theorem edit?_span {p : ImportPlan} {e : Edit} (he : p.edit? text = some e)
    (cuts : p.node.span.Cuts text) :
    e.span.Cuts text ∧ e.span.start = p.node.span.start ∧
      (p.fate ≠ .removed → e.span = p.node.span) ∧
        ∀ pos, TokenStart text pos → p.node.span.stop ≤ pos → e.span.stop ≤ pos := by
  unfold edit? at he
  split at he
  · exact nomatch he
  · cases he
    exact ⟨cuts, rfl, fun _ => rfl, fun _ _ le => le⟩
  · next hfate =>
    cases he
    exact ⟨lineSpan_cuts cuts, rfl, fun stays => absurd hfate stays,
      fun _ token le => lineSpan_stop_le cuts token le⟩

end ImportPlan

namespace ImportDraft

/-! ## The imports of a draft -/

theorem map_modify_eq {α β : Type} {f : α → α} {g : α → β} (h : ∀ a, g (f a) = g a) (l : List α)
    (i : Nat) : (l.modify i f).map g = l.map g := by
  induction l generalizing i with
  | nil => simp
  | cons a l ih => cases i <;> simp [h, ih]

/-- Adds those of the names that some file exports. -/
def addAll (p : Program) (file : FileId) (names : List String) (d : ImportDraft) : ImportDraft :=
  names.foldl (fun d name =>
    match exporter? p file name with
    | some exporter => d.add p file exporter name
    | none => d) d

theorem ofProgram_eq (p : Program) (file : FileId) (f : SourceFile) : ofProgram p file f =
    (ofFile f).addAll p file (f.references.free.filter (!(ofFile f).available.contains ·)) := rfl

/-- What holds of the draft before any name is added, and stays if a name is added that some file is
chosen for, holds in the end. -/
theorem ofProgram_induction {P : ImportDraft → Prop} {p : Program} {file : FileId} {f : SourceFile}
    (start : P (ofFile f))
    (add : ∀ {d name exporter}, exporter? p file name = some exporter → P d →
      P (d.add p file exporter name)) : P (ofProgram p file f) := by
  have all (names : List String) {d : ImportDraft} (h : P d) : P (d.addAll p file names) := by
    induction names generalizing d with
    | nil => exact h
    | cons name names ih =>
      rw [addAll, List.foldl_cons, ← addAll]
      refine ih ?_
      split
      · next chosen => exact add chosen h
      · exact h
  exact ofProgram_eq p file f ▸ all _ start

section Adding

variable {α : Type} {g : ImportPlan → α}

theorem add_map (same : ∀ plan names, g { plan with added := names } = g plan) (p : Program)
    (file exporter : FileId) (name : String) (d : ImportDraft) :
    (d.add p file exporter name).plans.map g = d.plans.map g := by
  unfold add
  dsimp only
  split
  · exact map_modify_eq (fun plan => same plan _) _ _
  · rfl

theorem addAll_map (same : ∀ plan names, g { plan with added := names } = g plan) (p : Program)
    (file : FileId) (names : List String) (d : ImportDraft) :
    (d.addAll p file names).plans.map g = d.plans.map g := by
  induction names generalizing d with
  | nil => rfl
  | cons name names ih =>
    rw [addAll, List.foldl_cons, ← addAll, ih]
    split
    · exact add_map same ..
    · rfl

/-- Adding names changes nothing about the plans but the names to be added. -/
theorem ofProgram_map (same : ∀ plan names, g { plan with added := names } = g plan) (p : Program)
    (file : FileId) (f : SourceFile) :
    (ofProgram p file f).plans.map g = f.imports.map fun n => g (.ofNode f.references n) := by
  rw [ofProgram_eq, addAll_map same, ofFile, List.map_map]
  rfl

end Adding

/-- Adding names does not change which imports there are. -/
theorem ofProgram_nodes (p : Program) (file : FileId) (f : SourceFile) :
    (ofProgram p file f).plans.map (·.node) = f.imports :=
  (ofProgram_map (fun _ _ => rfl) p file f).trans (List.map_id' _)

/-! ## The edits of a draft -/

section Edits

variable {d : ImportDraft}

/-- Two members of a list that is in order are in order, one way or the other. -/
theorem pairwise_cases {α : Type} {R : α → α → Prop} {l : List α} (h : l.Pairwise R) {a b : α}
    (ha : a ∈ l) (hb : b ∈ l) : a = b ∨ R a b ∨ R b a := by
  obtain ⟨i, hi, rfl⟩ := List.getElem_of_mem ha
  obtain ⟨j, hj, rfl⟩ := List.getElem_of_mem hb
  have index := List.pairwise_iff_getElem.1 h
  rcases Nat.lt_trichotomy i j with lt | rfl | lt
  · exact .inr (.inl (index i j hi hj lt))
  · exact .inl rfl
  · exact .inr (.inr (index j i hj hi lt))

theorem plan_cuts (order : InOrder text (d.plans.map (·.node))) {plan : ImportPlan}
    (hplan : plan ∈ d.plans) : plan.node.span.Cuts text :=
  order.cuts _ (List.mem_map_of_mem hplan)

theorem planEdits_pairwise (order : InOrder text (d.plans.map (·.node))) :
    (d.plans.filterMap (·.edit? text)).Pairwise Edit.Apart := by
  have pairwise := List.pairwise_map.1 order.pairwise
  rw [List.pairwise_filterMap]
  refine pairwise.imp_of_mem fun {a b} ha hb le e he e' he' => ?_
  have token := order.tokenStart _ (List.mem_map_of_mem hb)
  have hedit := ImportPlan.edit?_span he (plan_cuts order ha)
  have hedit' := ImportPlan.edit?_span he' (plan_cuts order hb)
  rw [Edit.Apart, hedit'.2.1]
  exact hedit.2.2.2 _ token le

/-- Imports that stay are left of where new ones are inserted, the others right of it. -/
theorem freshEdit_apart (order : InOrder text (d.plans.map (·.node))) (newLine : List Char) :
    (d.freshEdit newLine).span.Cuts text ∧ ∀ e ∈ d.plans.filterMap (·.edit? text),
      Edit.Apart e (d.freshEdit newLine) ∨ Edit.Apart (d.freshEdit newLine) e := by
  have pairwise := List.pairwise_map.1 order.pairwise
  unfold freshEdit
  split
  · next _ _ plan hlast =>
    obtain ⟨hplan, hstays⟩ := List.mem_filter.1 (List.mem_of_getLast? hlast)
    have stays : plan.fate ≠ .removed := by simpa using hstays
    have cuts := plan_cuts order hplan
    refine ⟨⟨Nat.le_refl _, cuts.stop_boundary, cuts.stop_boundary⟩, fun e he => ?_⟩
    obtain ⟨other, hother, hedit⟩ := List.mem_filterMap.1 he
    obtain ⟨-, hstart, hspan, hstop⟩ := ImportPlan.edit?_span hedit (plan_cuts order hother)
    rcases pairwise_cases pairwise hother hplan with rfl | before | after
    · rw [Edit.Apart, hspan stays]
      exact .inl (Nat.le_refl _)
    · have token := order.tokenStart _ (List.mem_map_of_mem hplan)
      exact .inl (Nat.le_trans (hstop _ token before) cuts.start_le_stop)
    · refine .inr ?_
      rw [Edit.Apart, hstart]
      exact after
  · next plan _ hhead =>
    have hplan := List.mem_of_head? hhead
    have cuts := plan_cuts order hplan
    refine ⟨⟨Nat.le_refl _, cuts.start_boundary, cuts.start_boundary⟩, fun e he => .inr ?_⟩
    obtain ⟨other, hother, hedit⟩ := List.mem_filterMap.1 he
    obtain ⟨-, hstart, -, -⟩ := ImportPlan.edit?_span hedit (plan_cuts order hother)
    rw [Edit.Apart, hstart]
    obtain ⟨plans, hplans⟩ := List.head?_eq_some_iff.1 hhead
    rw [hplans] at pairwise hother
    rcases List.mem_cons.1 hother with rfl | hother
    · exact Nat.le_refl _
    · exact Nat.le_trans cuts.start_le_stop ((List.pairwise_cons.1 pairwise).1 _ hother)
  · next hhead =>
    have hnil : d.plans = [] := List.head?_eq_none_iff.1 hhead
    exact ⟨⟨Nat.le_refl _, isBoundary_zero _, isBoundary_zero _⟩, by simp [hnil]⟩

theorem planEdits_cuts (order : InOrder text (d.plans.map (·.node))) :
    ∀ e ∈ d.plans.filterMap (·.edit? text), e.span.Cuts text := by
  intro e he
  obtain ⟨plan, hplan, hedit⟩ := List.mem_filterMap.1 he
  exact (ImportPlan.edit?_span hedit (plan_cuts order hplan)).1

theorem edits_cuts (order : InOrder text (d.plans.map (·.node))) :
    ∀ e ∈ d.edits text, e.span.Cuts text := by
  intro e he
  rcases List.mem_append.1 he with he | he
  · exact planEdits_cuts order e he
  · split at he
    · exact absurd he List.not_mem_nil
    · rw [List.mem_singleton.1 he]
      exact (freshEdit_apart order _).1

/-- No two edits of a draft overlap. -/
theorem edits_compatible (order : InOrder text (d.plans.map (·.node))) :
    (d.edits text).Pairwise Edit.Compatible := by
  have plan_cuts := planEdits_cuts order
  have plans : (d.plans.filterMap (·.edit? text)).Pairwise Edit.Compatible :=
    (planEdits_pairwise order).imp_of_mem fun ha hb apart =>
      apart.compatible (plan_cuts _ ha) (plan_cuts _ hb)
  obtain ⟨fresh_cuts, fresh_apart⟩ := freshEdit_apart order (newLineOf text).text
  unfold edits
  split
  · rwa [List.append_nil]
  · refine List.pairwise_append.2 ⟨plans, List.pairwise_singleton _ _, fun e he e' he' => ?_⟩
    rw [List.mem_singleton.1 he']
    rcases fresh_apart e he with apart | apart
    · exact apart.compatible (plan_cuts e he) fresh_cuts
    · exact (apart.compatible fresh_cuts (plan_cuts e he)).symm

/-- The edits of a draft can be carried out together. -/
theorem edits_isOk (order : InOrder text (d.plans.map (·.node))) :
    ∃ out, Edit.applyAll text (d.edits text) = .ok out :=
  Edit.applyAll_isOk (edits_cuts order) (edits_compatible order)

end Edits

end ImportDraft

/-- Reconciling the imports of a file without errors never fails. -/
theorem Program.reconcileImports_isOk (p : Program) (file : FileId) {path : String}
    (clean : (SourceFile.parse path text).hasErrors = false) :
    ∃ change, p.reconcileImports file (.parse path text) = .ok change := by
  have order : InOrder text
      ((ImportDraft.ofProgram p file (.parse path text)).plans.map (·.node)) := by
    rw [ImportDraft.ofProgram_nodes]
    exact SourceFile.imports_inOrder clean
  obtain ⟨out, hout⟩ := ImportDraft.edits_isOk order
  rw [reconcileImports, SourceFile.parse_text, hout]
  exact ⟨_, rfl⟩

end FactorySync
