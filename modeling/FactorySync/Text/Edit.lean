import FactorySync.Text.Span

/-!
# Edits

An `Edit` replaces one span of a snapshot by a new text. A batch of edits is applied in one pass
from left to right (`Edit.applyAll`); what lies between the spans is copied unchanged. Edits of one
batch must not overlap: the pass stops at the first one that does.
-/

namespace FactorySync

/-- Put `text` in the place of `span`. An empty span inserts, an empty text deletes. -/
structure Edit where
  span : Span
  text : List Char
  deriving Repr, DecidableEq

namespace Edit

def insert (pos : Nat) (text : List Char) : Edit := ⟨.empty pos, text⟩

def delete (span : Span) : Edit := ⟨span, []⟩

def replace (span : Span) (text : List Char) : Edit := ⟨span, text⟩

/-- Why a batch of edits cannot be applied. -/
inductive Fault where
  /-- An edit starts before the one sorted ahead of it ends. -/
  | overlap (pos : Nat)
  /-- An edit starts or ends outside the text or inside a character. -/
  | misplaced (span : Span)
  deriving Repr, DecidableEq

/-- Carries out edits sorted by span on `rest`, the text that follows the byte offset `cursor`. -/
def applySorted (cursor : Nat) (rest : List Char) : List Edit → Except Fault (List Char)
  | [] => .ok rest
  | e :: es =>
    if e.span.start < cursor then .error (.overlap e.span.start)
    else
      let stop := max e.span.stop cursor
      if isBoundary (e.span.start - cursor) rest && isBoundary (stop - cursor) rest then do
        let tail ← applySorted stop (dropBytes (stop - cursor) rest) es
        return takeBytes (e.span.start - cursor) rest ++ (e.text ++ tail)
      else .error (.misplaced e.span)

/-- Carries out a batch of edits given in any order. Insertions at one offset keep the order in
which they are given, because the sort is stable. -/
def applyAll (text : List Char) (edits : List Edit) : Except Fault (List Char) :=
  applySorted 0 text (edits.mergeSort fun a b => a.span.before b.span)

theorem applyAll_nil (text : List Char) : applyAll text [] = .ok text := by
  simp [applyAll, applySorted]

end Edit

end FactorySync
