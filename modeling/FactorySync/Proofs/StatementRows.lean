import FactorySync.Proofs.WordPlaces

/-!
# Files of several statements

A file is the row of words of its statements and, last of all, its end (`Word.fileEnd`). If each
statement is read from its words up to those of the next one (`StatementRows`), the file has just
these statements and nothing is noted about it (`SourceFile.parse_rows`). What is known of a
statement may depend on where it stands.
-/

namespace FactorySync

open Parse

/-! ## The end of a file -/

/-- The end of a file, on the line of the last word or, with `startsLine`, further down. -/
def Word.fileEnd (startsLine : Bool) : Word := { kind := .endOfFile, source := [], startsLine }

/-- Behind the last word there are only gaps. -/
theorem Spells.faces_fileEnd {clean b : Bool} {s : Scanner} {tail : List Char} {ws : List Word}
    (h : Spells tail s.rest ws) (passes : Trivia.Passes tail b)
    (noted : clean = true → s.diagnostics = []) : s.next.Faces clean (ws ++ [.fileEnd b]) := by
  obtain ⟨more, rfl, faces⟩ := h.faces_more (P := (· = [Word.fileEnd b])) noted
    fun t n rest noted => by
      have blanks : Trivia.Passes (List.replicate n ' ' ++ tail) b :=
        Bool.false_or b ▸ (Trivia.Passes.blanks fun c hc => by
          rw [List.eq_of_mem_replicate hc]; rfl).append passes
      have all : Trivia.ofChars (t.token.stop == 0) t.rest =
          { size := t.rest.length, lineBreak := b } := by
        have whole : Trivia.ofChars (t.token.stop == 0) (List.replicate n ' ' ++ tail ++ []) = _ :=
          blanks.ofChars_append fun fileStart => by cases fileStart <;> rfl
        rwa [List.append_nil, ← rest] at whole
      have next : t.next = t.take (t.token.stop + byteLength (t.rest.take t.rest.length))
          { afterLineBreak := b } { kind := .endOfFile, size := 0 } [] := by
        simp only [Scanner.next, all, List.drop_length]
      rw [next]
      exact ⟨_, rfl, .word ⟨rfl, rfl, rfl, Bool.or_false b⟩ noted (Scanner.faces_end rfl noted)⟩
  exact faces

/-! ## Statements one after the other -/

namespace Parser

open ReadsRow

variable {c : Context} {ws mid rest : List Word} {P : Node → Prop} {Ps : List (Node → Prop)}

/-- Where nothing has been noted there are no errors. -/
theorem noErrors {s : State} (clean : c.clean = true) (faces : s.Faces c ws) : s.Clean :=
  ⟨faces.noted clean ▸ List.forall_mem_nil _, faces.scanner.noted clean ▸ List.forall_mem_nil _⟩

/-- Where nothing has been noted, what begins with a token consumes one. -/
theorem ReadsNode.advances {p : Parser Node} {n : Nat} {s t : State} {a : Node}
    (reads : p.ReadsNode) (clean : c.clean = true) (faces : s.Faces c ws)
    (begins : (Word.first ws).kind.endsBlock = false) (left : t.Faces c rest)
    (hrun : p.run (knot n) s = some (a, t)) : s.here < t.here := by
  have laid := reads faces.valid (knot_sound n) hrun (noErrors clean left)
  have within : t.lastEnd ≤ t.here := by
    obtain ⟨text, sound⟩ := left.valid
    exact sound.lastEnd_le_here
  obtain lt | ⟨atEnd, -⟩ := laid.consumed rfl
  · exact Nat.lt_of_lt_of_le lt within
  · rw [Word.first, ← faces.scanner.token.kind, show s.scanner.token.kind = _ from atEnd] at begins
    cases begins

/-- So no tokens are passed over behind a statement. -/
theorem oneStatement_reads (clean : c.clean = true)
    (begins : (Word.first ws).kind.endsBlock = false) (h : statement.ReadsRow c ws rest P) :
    (oneStatement Kind.endsBlock).ReadsRow c ws rest P := by
  intro n s a t faces hrun trusted
  rw [oneStatement, run_here] at hrun
  obtain ⟨found, u, hstatement, behind⟩ := run_bind hrun
  have read : (need .statement).ReadsRow c ws rest P := .need h
  obtain ⟨holds, left⟩ := read faces hstatement fun known =>
    (Parser.leads _ (knot_leads n) behind).run.clean_of (trusted known)
  have lt := (need_reads .statement).advances clean faces begins left hstatement
  rw [run_here, run_kind, if_neg (by simp [Nat.ne_of_gt lt])] at behind
  cases (show some (found, u) = some (a, t) from behind)
  exact ⟨holds, left⟩

/-- A statement that begins with a token goes before others. -/
theorem StatementRows.advancing (clean : c.clean = true)
    (begins : (Word.first ws).kind.endsBlock = false) (first : Parser.statement.ReadsRow c ws mid P)
    (others : StatementRows c rest mid Ps) : StatementRows c rest ws (P :: Ps) :=
  .statement begins (oneStatement_reads clean begins first) others

end Parser

namespace SourceFile

open FactorySync.Parser

/-- A file that is the row of words of its statements, with gaps behind the last one. -/
theorem parse_rows (path : String) {text tail : List Char} {ws : List Word} {b : Bool}
    {Ps : List (Node → Prop)} (spells : Spells tail text ws) (passes : Trivia.Passes tail b)
    (rows : StatementRows (.ofFile (firstReading path text) (ws ++ [Word.fileEnd b]).length)
      [.fileEnd b] (ws ++ [.fileEnd b]) Ps) :
    (parse path text).notes = [] ∧ ∃ ns, (parse path text).statements =
      ns.map (·.inRole .statements) ∧ List.Forall₂ (fun P n => P n) Ps ns := by
  have faces : State.Faces { toReading := firstReading path text, size := text.length }
      (.ofFile (firstReading path text) (ws ++ [Word.fileEnd b]).length) (ws ++ [.fileEnd b]) :=
    ⟨⟨text, firstReading_sound path text⟩, spells.faces_fileEnd (s := .ofText path text) passes
      fun _ => rfl, fun _ => rfl, rfl, rfl, Nat.le_refl _, fun _ => by rw [Nat.sub_self]; rfl⟩
  exact parse_faces path rfl rfl faces rfl rows

end SourceFile
end FactorySync
