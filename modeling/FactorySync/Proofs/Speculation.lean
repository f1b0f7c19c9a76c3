import FactorySync.Parse.File
import FactorySync.Proofs.Rules

/-!
# Reading on trial leaves no trace

Going back to a saved state sets the place in the text, the token and the context, but takes what
was noted since only as the end of a list that may have grown, and the nesting of expressions and
types as it is. That the whole state comes back (`lookAhead_restores`) rests on what every parser
keeps, `State.Leads`: notes are only ever added, and whatever goes one level deeper comes back up.

The scanner by itself keeps the same promise to whoever saves and restores its state in turn
(`ScannerCalls.backTo_perform`).
-/

namespace FactorySync

/-- Calls of a scanner, in order. States are saved and restored in turn, and the diagnostics are not
taken. -/
inductive ScannerCalls
  | done
  | next (more : ScannerCalls)
  | rescan (way : Rescan) (more : ScannerCalls)
  /-- Saves the state, makes some calls and restores what was saved. -/
  | excursion (calls more : ScannerCalls)

namespace ScannerCalls

/-- Makes the calls one after the other. -/
def perform : ScannerCalls → Scanner → Scanner
  | .done, s => s
  | .next more, s => more.perform s.next
  | .rescan way more, s => more.perform (s.rescan way)
  | .excursion calls more, s => more.perform (s.backTo (calls.perform s))

theorem extends_perform (calls : ScannerCalls) (s : Scanner) : s.Extends (calls.perform s) := by
  induction calls generalizing s with
  | done => exact .refl s
  | next more ih => exact s.extends_next.trans (ih _)
  | rescan way more ih => exact (Scanner.extends_rescan way s).trans (ih _)
  | excursion calls more inner ih =>
    rw [perform, (inner s).backTo]
    exact ih s

theorem backTo_perform (calls : ScannerCalls) (s : Scanner) : s.backTo (calls.perform s) = s :=
  (calls.extends_perform s).backTo

end ScannerCalls

namespace Parser

open Parse

/-- Whatever is read to look ahead, and whatever is read on trial and finds nothing, leaves the
state as it was: the scanner with its token and diagnostics, the end of the last token, the notes,
the context of types and the depth. Likewise any calls of a scanner can be undone. -/
theorem lookAhead_restores :
    (∀ {α : Type} (p : Parser α) (n : Nat) (s : State),
      (lookAhead p).run (knot n) s = (p.run (knot n) s).map fun r => (r.1, s)) ∧
    (∀ {α : Type} (p : Parser (Option α)) (n : Nat) (s : State),
      (attempt p).run (knot n) s =
        (p.run (knot n) s).map fun r => if r.1.isSome then r else (none, s)) ∧
    ∀ (calls : ScannerCalls) (s : Scanner), s.backTo (calls.perform s) = s := by
  refine ⟨fun p n => lookAhead_run (knot_leads n) p, fun p n s => ?_,
    fun calls => calls.backTo_perform⟩
  rw [attempt_run (knot_leads n)]
  refine Option.map_congr fun r _ => ?_
  split
  · rfl
  · next notFound => rw [Option.not_isSome_iff_eq_none.1 notFound]

end Parser
end FactorySync
